import Ns3.Foundation.ByteFormat
import Ns3.Network.SequenceNumber

namespace Ns3

open ByteFormat

/-- The options with their fields. -/
inductive TcpOption
  | end_
  | nop
  | mss (m_mss : UInt16)
  | winScale (m_scale : UInt8)
  | sackPermitted
  | sack (m_sackList : List (SequenceNumber32 × SequenceNumber32))
  | ts (m_timestamp m_echo : UInt32)
  | unknown (m_kind : UInt8) (m_size : ℕ) (m_content : List UInt8)
deriving DecidableEq, Repr

namespace TcpOption

section Kind

abbrev END : UInt8 := 0
abbrev NOP : UInt8 := 1
abbrev MSS : UInt8 := 2
abbrev WINSCALE : UInt8 := 3
abbrev SACKPERMITTED : UInt8 := 4
abbrev SACK : UInt8 := 5
abbrev TS : UInt8 := 8
abbrev UNKNOWN : UInt8 := 255

end Kind

def get_kind : TcpOption → UInt8
  | end_ => END
  | nop => NOP
  | mss _ => MSS
  | winScale _ => WINSCALE
  | sackPermitted => SACKPERMITTED
  | sack _ => SACK
  | ts _ _ => TS
  | unknown m_kind _ _ => m_kind

def get_serialized_size : TcpOption → ℕ
  | end_ => 1
  | nop => 1
  | mss _ => 4
  | winScale _ => 3
  | sackPermitted => 2
  | sack m_sackList => 2 + m_sackList.length * 8
  | ts _ _ => 10
  | unknown _ m_size _ => m_size

def is_kind_known (kind : UInt8) : Bool :=
  kind ∈ [END, NOP, MSS, WINSCALE, SACKPERMITTED, SACK, TS]

/-- `CreateOption`: an option of a kind as its constructor makes it. -/
def create_option (kind : UInt8) : TcpOption :=
  if kind = END then end_
  else if kind = MSS then mss 1460
  else if kind = NOP then nop
  else if kind = TS then ts 0 0
  else if kind = WINSCALE then winScale 0
  else if kind = SACKPERMITTED then sackPermitted
  else if kind = SACK then sack []
  else unknown 0xff 0 []

/-- What `Deserialize` gives: the option and the size it returns, or nothing when it aborts. -/
abbrev Result := Option (TcpOption × ℕ)

def deserialize_kind (op : TcpOption) : Reader Result := do
  let readKind ← read_u8
  if readKind ≠ op.get_kind then
    return some (op, 0)
  else
    return some (op, op.get_serialized_size)

/-- The options with a length byte of one value, and what they read behind it. -/
def deserialize_sized (op : TcpOption) (length : UInt8) (content : Reader TcpOption) : Reader Result := do
  let readKind ← read_u8
  if readKind ≠ op.get_kind then
    return some (op, 0)
  else
    let size ← read_u8
    if size ≠ length then
      return some (op, 0)
    else
      let op ← content
      return some (op, op.get_serialized_size)

def deserialize_end : Reader Result := deserialize_kind end_

def deserialize_nop : Reader Result := deserialize_kind nop

/-- A wrong length aborts the simulation. -/
def deserialize_mss (m_mss : UInt16) : Reader Result := do
  let readKind ← read_u8
  if readKind ≠ MSS then
    return some (mss m_mss, 0)
  else
    let size ← read_u8
    if size ≠ 4 then
      return none
    else
      let m_mss ← read_ntoh_u16
      return some (mss m_mss, 4)

def deserialize_win_scale (m_scale : UInt8) : Reader Result :=
  deserialize_sized (winScale m_scale) 3 do
    let m_scale ← read_u8
    return winScale m_scale

def deserialize_sack_permitted : Reader Result := deserialize_sized sackPermitted 2 (return sackPermitted)

/-- A block, with its left and its right edge. -/
def read_sack_block : Reader (SequenceNumber32 × SequenceNumber32) := do
  let leftEdge ← read_ntoh_u32
  let rightEdge ← read_ntoh_u32
  return (⟨leftEdge⟩, ⟨rightEdge⟩)

/-- The number of blocks is computed in `int`: lengths 0 and 1 make none. -/
def deserialize_sack (m_sackList : List (SequenceNumber32 × SequenceNumber32)) : Reader Result := do
  let readKind ← read_u8
  if readKind ≠ SACK then
    return some (sack m_sackList, 0)
  else
    let size ← read_u8
    let m_sackList ← read_times read_sack_block (((size.toNat : ℤ) - 2).tdiv 8).toNat
    return some (sack m_sackList, 2 + m_sackList.length * 8)

def deserialize_ts (m_timestamp m_echo : UInt32) : Reader Result :=
  deserialize_sized (ts m_timestamp m_echo) 10 do
    let m_timestamp ← read_ntoh_u32
    let m_echo ← read_ntoh_u32
    return ts m_timestamp m_echo

/-- An unknown option takes any kind. A size out of bounds is kept. -/
def deserialize_unknown (m_content : List UInt8) : Reader Result := do
  let m_kind ← read_u8
  let size ← read_u8
  if size < 2 ∨ 40 < size then
    return some (unknown m_kind size.toNat m_content, 0)
  else
    let m_content ← read_bytes (size.toNat - 2)
    return some (unknown m_kind size.toNat m_content, size.toNat)

def deserialize : TcpOption → Reader Result
  | end_ => deserialize_end
  | nop => deserialize_nop
  | mss m_mss => deserialize_mss m_mss
  | winScale m_scale => deserialize_win_scale m_scale
  | sackPermitted => deserialize_sack_permitted
  | sack m_sackList => deserialize_sack m_sackList
  | ts m_timestamp m_echo => deserialize_ts m_timestamp m_echo
  | unknown _ _ m_content => deserialize_unknown m_content

/-- The option that the header creates for a kind it peeks. -/
def create_known (kind : UInt8) : TcpOption :=
  if is_kind_known kind then create_option kind else create_option UNKNOWN

/-- What the length byte makes of an option of a kind that has one. -/
inductive Length
  /-- An option of this many bytes. -/
  | whole (size : ℕ)
  /-- A length that is refused. -/
  | wrong
  | abort
  /-- A size of zero, that the option returns and keeps. -/
  | zero
deriving DecidableEq, Repr

def length_of (kind size : UInt8) : Length :=
  if kind = MSS then if size = 4 then .whole 4 else .abort
  else if kind = WINSCALE then if size = 3 then .whole 3 else .wrong
  else if kind = SACKPERMITTED then if size = 2 then .whole 2 else .wrong
  else if kind = SACK then .whole (2 + (size.toNat - 2) / 8 * 8)
  else if kind = TS then if size = 10 then .whole 10 else .wrong
  else if size = 0 then .zero
  else if size < 2 ∨ 40 < size then .wrong
  else .whole size.toNat

/-- What an option does with the bytes behind its length byte. -/
def Behaves (rest : List UInt8) (run : Option (Result × List UInt8)) : Length → Prop
  | .whole size => if size ≤ rest.length + 2 then
      ∃ op, op.get_serialized_size = size ∧ op.get_kind ≠ END ∧ run = some (some (op, size), rest.drop (size - 2))
    else run = none
  | .wrong => ∃ op optionSize, optionSize ≠ op.get_serialized_size ∧ run = some (some (op, optionSize), rest)
  | .abort => run = some (none, rest)
  | .zero => ∃ op, op.get_serialized_size = 0 ∧ op.get_kind ≠ END ∧ run = some (some (op, 0), rest)

variable {content : Reader TcpOption} {n : ℕ} {kind length size : UInt8} {rest : List UInt8}

theorem behaves_whole {r : Reader Result}
    (h : Takes r n fun result => ∃ op, op.get_serialized_size = n + 2 ∧ op.get_kind ≠ END ∧ result = some (op, n + 2)) :
    Behaves rest (r.run rest) (.whole (n + 2)) := by
  rw [Behaves]
  split
  · obtain ⟨result, ⟨op, hsize, hkind, rfl⟩, hrun⟩ := h.enough rest (by omega)
    exact ⟨op, hsize, hkind, hrun⟩
  · exact h.short rest (by omega)

theorem deserialize_sized_behaves (op : TcpOption) (hlength : length.toNat = n + 2)
    (hcontent : Takes content n fun op => op.get_serialized_size = n + 2 ∧ op.get_kind ≠ END)
    (hop : op.get_serialized_size ≠ 0) :
    Behaves rest ((deserialize_sized op length content).run (op.get_kind :: size :: rest))
      (if size = length then .whole length.toNat else .wrong) := by
  by_cases hsize : size = length
  · rw [if_pos hsize, hlength]
    have hrun : (deserialize_sized op length content).run (op.get_kind :: size :: rest) =
        (content >>= fun op => pure (some (op, op.get_serialized_size))).run rest := by
      simp only [deserialize_sized]
      rw [run_bind_of_run (a := op.get_kind) rfl, if_neg (not_not.mpr rfl), run_bind_of_run (a := size) rfl,
        if_neg (not_not.mpr hsize)]
    rw [hrun]
    apply behaves_whole
    refine hcontent.map fun op' hop' => ⟨op', hop'.1, hop'.2, ?_⟩
    rw [hop'.1]
  · rw [if_neg hsize]
    refine ⟨op, 0, hop.symm, ?_⟩
    simp only [deserialize_sized]
    rw [run_bind_of_run (a := op.get_kind) rfl, if_neg (not_not.mpr rfl), run_bind_of_run (a := size) rfl,
      if_pos hsize]
    rfl

theorem Behaves.taken {beyond : List UInt8} {result : Result} {l : Length} (h : Behaves rest (some (result, beyond)) l) :
    (∃ size, l = .whole size ∧ size ≤ rest.length + 2 ∧ beyond = rest.drop (size - 2)) ∨ beyond = rest := by
  cases l with
  | whole size =>
    rw [Behaves] at h
    split at h
    · obtain ⟨op, _, _, hrun⟩ := h
      cases hrun
      exact Or.inl ⟨size, rfl, ‹_›, rfl⟩
    · cases h
  | wrong =>
    obtain ⟨op, optionSize, _, hrun⟩ := h
    cases hrun
    exact Or.inr rfl
  | abort =>
    cases h
    exact Or.inr rfl
  | zero =>
    obtain ⟨op, _, _, hrun⟩ := h
    cases hrun
    exact Or.inr rfl

theorem deserialize_mss_behaves (m_mss : UInt16) : Behaves rest ((deserialize_mss m_mss).run (MSS :: size :: rest))
    (if size = 4 then .whole 4 else .abort) := by
  by_cases hsize : size = 4
  · have hrun : (deserialize_mss m_mss).run (MSS :: 4 :: rest) =
        (read_ntoh_u16 >>= fun m_mss => pure (some (mss m_mss, 4)) : Reader Result).run rest := rfl
    rw [if_pos hsize, hsize, hrun]
    apply behaves_whole
    refine takes_ntoh_u16.map fun m_mss _ => ⟨mss m_mss, rfl, ?_, rfl⟩
    exact (by decide : MSS ≠ END)
  · rw [if_neg hsize]
    simp only [deserialize_mss, Behaves]
    rw [run_bind_of_run (a := MSS) rfl, if_neg (not_not.mpr rfl), run_bind_of_run (a := size) rfl, if_pos hsize]
    rfl

theorem takes_sack_block : Takes read_sack_block 8 fun _ => True :=
  takes_ntoh_u32.bind fun _ _ => takes_ntoh_u32.map fun _ _ => trivial

theorem sack_count (size : ℕ) : (((size : ℤ) - 2).tdiv 8).toNat = (size - 2) / 8 := by
  obtain h | h := Nat.lt_or_ge size 2
  · interval_cases size <;> rfl
  · obtain ⟨k, rfl⟩ := Nat.exists_eq_add_of_le h
    rw [Nat.add_sub_cancel_left, Nat.cast_add, Nat.cast_two, add_sub_cancel_left]
    rfl

theorem deserialize_sack_behaves (m_sackList : List (SequenceNumber32 × SequenceNumber32)) :
    Behaves rest ((deserialize_sack m_sackList).run (SACK :: size :: rest))
      (.whole (2 + (size.toNat - 2) / 8 * 8)) := by
  have hrun : (deserialize_sack m_sackList).run (SACK :: size :: rest) =
      (read_times read_sack_block (((size.toNat : ℤ) - 2).tdiv 8).toNat >>= fun m_sackList =>
        pure (some (sack m_sackList, 2 + m_sackList.length * 8)) : Reader Result).run rest := rfl
  rw [hrun, sack_count, Nat.add_comm 2, Nat.mul_comm]
  apply behaves_whole
  refine (takes_sack_block.times _).map fun m_sackList hlist => ⟨sack m_sackList, ?_, ?_, ?_⟩
  · rw [get_serialized_size, hlist]
    omega
  · exact (by decide : SACK ≠ END)
  · rw [hlist, Nat.add_comm 2, Nat.mul_comm]

theorem deserialize_unknown_behaves (hkind : kind ≠ END) (m_content : List UInt8) :
    Behaves rest ((deserialize_unknown m_content).run (kind :: size :: rest))
      (if size = 0 then .zero else if size < 2 ∨ 40 < size then .wrong else .whole size.toNat) := by
  have hrun : (deserialize_unknown m_content).run (kind :: size :: rest) =
      (if size < 2 ∨ 40 < size then pure (some (unknown kind size.toNat m_content, 0))
      else read_bytes (size.toNat - 2) >>= fun m_content =>
        pure (some (unknown kind size.toNat m_content, size.toNat)) : Reader Result).run rest := rfl
  rw [hrun]
  by_cases hzero : size = 0
  · rw [if_pos hzero, hzero, if_pos (by decide)]
    exact ⟨unknown kind 0 m_content, rfl, hkind, rfl⟩
  rw [if_neg hzero]
  by_cases hwrong : size < 2 ∨ 40 < size
  · rw [if_pos hwrong, if_pos hwrong]
    refine ⟨unknown kind size.toNat m_content, 0, ?_, rfl⟩
    rw [get_serialized_size, ne_comm, Ne, ← UInt8.toNat_zero, UInt8.toNat_inj]
    exact hzero
  · rw [if_neg hwrong, if_neg hwrong]
    have hsize : size.toNat = size.toNat - 2 + 2 := by
      rw [not_or, UInt8.not_lt, UInt8.le_iff_toNat_le] at hwrong
      have htwo : (2 : UInt8).toNat = 2 := rfl
      omega
    rw [hsize]
    apply behaves_whole
    exact (takes_bytes _).map fun m_content _ => ⟨unknown kind size.toNat m_content, hsize, hkind, by rw [← hsize]⟩

theorem create_known_end : (create_known END).deserialize.run (END :: rest) = some (some (end_, 1), rest) := rfl

theorem create_known_nop : (create_known NOP).deserialize.run (NOP :: rest) = some (some (nop, 1), rest) := rfl

theorem create_known_of_not_mem (h : is_kind_known kind = false) : create_known kind = unknown 0xff 0 [] := by
  rw [create_known, h]
  rfl

theorem deserialize_behaves (hend : kind ≠ END) (hnop : kind ≠ NOP) (size : UInt8) (rest : List UInt8) :
    Behaves rest ((create_known kind).deserialize.run (kind :: size :: rest)) (length_of kind size) := by
  by_cases hmss : kind = MSS
  · subst hmss
    exact deserialize_mss_behaves 1460
  by_cases hwin : kind = WINSCALE
  · subst hwin
    exact deserialize_sized_behaves (winScale 0) rfl
      (takes_u8.map fun _ _ => ⟨rfl, (by decide : WINSCALE ≠ END)⟩) (by decide)
  by_cases hpermitted : kind = SACKPERMITTED
  · subst hpermitted
    exact deserialize_sized_behaves sackPermitted rfl
      (Takes.pure ⟨rfl, (by decide : SACKPERMITTED ≠ END)⟩) (by decide)
  by_cases hsack : kind = SACK
  · subst hsack
    exact deserialize_sack_behaves []
  by_cases hts : kind = TS
  · subst hts
    exact deserialize_sized_behaves (ts 0 0) rfl
      (takes_ntoh_u32.bind fun _ _ => takes_ntoh_u32.map fun _ _ => ⟨rfl, (by decide : TS ≠ END)⟩) (by decide)
  have hunknown : is_kind_known kind = false := by
    simp only [is_kind_known, List.mem_cons, hend, hnop, hmss, hwin, hpermitted, hsack, hts, List.not_mem_nil,
      or_self, decide_false]
  rw [create_known_of_not_mem hunknown, length_of, if_neg hmss, if_neg hwin, if_neg hpermitted, if_neg hsack,
    if_neg hts]
  exact deserialize_unknown_behaves hend []

theorem deserialize_alone (hend : kind ≠ END) (hnop : kind ≠ NOP) :
    (create_known kind).deserialize.run [kind] = none := by
  by_cases hknown : is_kind_known kind
  · have hkind : kind = MSS ∨ kind = WINSCALE ∨ kind = SACKPERMITTED ∨ kind = SACK ∨ kind = TS := by
      simpa only [is_kind_known, List.mem_cons, hend, hnop, List.not_mem_nil, or_false, false_or,
        decide_eq_true_eq] using hknown
    obtain rfl | rfl | rfl | rfl | rfl := hkind <;> rfl
  · rw [create_known_of_not_mem (Bool.eq_false_iff.mpr hknown)]
    rfl

theorem two_le_of_whole {n : ℕ} (h : length_of kind size = .whole n) : 2 ≤ n := by
  unfold length_of at h
  split_ifs at h with _ _ _ _ _ _ _ _ _ _ hwrong <;> injection h with h <;> subst h
  case neg =>
    rw [not_or, UInt8.not_lt, UInt8.le_iff_toNat_le] at hwrong
    exact hwrong.1
  all_goals omega

end TcpOption

end Ns3
