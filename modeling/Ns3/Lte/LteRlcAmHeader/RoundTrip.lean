import Ns3.Lte.LteRlcAmHeader

namespace Ns3.LteRlcAmHeader

open ByteFormat ExtensionBit

variable {h fresh : LteRlcAmHeader} {turns : ℕ}

/-! ## The fields within the bytes -/

theorem word_and (sn : Fin 1024) : word sn &&& 0x03ff = word sn := by
  have hlt := sn.isLt
  apply UInt16.toNat_inj.mp
  rw [word, UInt16.toNat_and, UInt16.toNat_ofNat', show (0x03ff : UInt16).toNat = 2 ^ 10 - 1 from rfl,
    Nat.and_two_pow_sub_one_eq_mod]
  omega

theorem nack_of_word (sn : Fin 1024) : nack_of (word sn) = sn := by
  have hlt := sn.isLt
  rw [nack_of, word, UInt16.toNat_ofNat', Nat.mod_eq_of_lt (by omega)]
  exact Fin.ofNat_val_eq_self sn

theorem extension_bit_of_code (e : ExtensionBit) : extension_bit_of (u8 (e.code &&& 0x01)) = e := by
  cases e <;> rfl

theorem fields_data (r p f e x : UInt16) :
    let byte_1 := u8 (0x80 ||| shl_and r 6 0x40 ||| shl_and p 5 0x20 ||| shl_and f 3 0x18 ||| shl_and e 2 0x04 |||
      shr_and x 8 0x0003)
    (byte_1 &&& 0x80) >>> 7 = 1 ∧ (byte_1 &&& 0x40) >>> 6 = u8 (r &&& 0x01) ∧
      (byte_1 &&& 0x20) >>> 5 = u8 (p &&& 0x01) ∧ (byte_1 &&& 0x18) >>> 3 = u8 (f &&& 0x03) ∧
      (byte_1 &&& 0x04) >>> 2 = u8 (e &&& 0x01) ∧
      ((byte_1.toUInt16 &&& 0x03) <<< 8) ||| (u8 (x &&& 0x00ff)).toUInt16 = x &&& 0x03ff := by
  simp only [u8, shl_and, shr_and]
  refine ⟨?_, ?_, ?_, ?_, ?_, ?_⟩
  case refine_6 =>
    apply UInt16.toBitVec_inj.mp
    simp only [UInt16.toBitVec_or, UInt16.toBitVec_and, UInt16.toBitVec_shiftLeft, UInt16.toBitVec_shiftRight,
      UInt8.toBitVec_toUInt16, UInt16.toBitVec_toUInt8]
    ext i hi
    interval_cases i <;> simp
  all_goals
    apply UInt8.toBitVec_inj.mp
    ext i hi
    interval_cases i <;> simp

theorem fields_offset (l x : UInt16) :
    let byte_3 := u8 (shl_and l 7 0x80 ||| shr_and x 8 0x007f)
    (byte_3 &&& 0x80) >>> 7 = u8 (l &&& 0x01) ∧ byte_3.toUInt16 &&& 0x7f = shr_and x 8 0x007f ∧
      (u8 (x &&& 0x00ff)).toUInt16 = x &&& 0x00ff := by
  simp only [u8, shl_and, shr_and]
  refine ⟨?_, ?_, ?_⟩
  case refine_1 =>
    apply UInt8.toBitVec_inj.mp
    ext i hi
    interval_cases i <;> simp
  all_goals
    apply UInt16.toBitVec_inj.mp
    simp only [UInt16.toBitVec_or, UInt16.toBitVec_and, UInt16.toBitVec_shiftLeft, UInt16.toBitVec_shiftRight,
      UInt8.toBitVec_toUInt16, UInt16.toBitVec_toUInt8]
    ext i hi
    interval_cases i <;> simp

theorem fields_li (oddE oddLi evenE evenLi : UInt16) :
    let byte_1 := u8 (shl_and oddE 7 0x80 ||| shr_and oddLi 4 0x007f)
    let byte_2 := u8 (shl_and oddLi 4 0x00f0 ||| shl_and evenE 3 0x08 ||| shr_and evenLi 8 0x0007)
    (byte_1 &&& 0x80) >>> 7 = u8 (oddE &&& 0x01) ∧
      ((byte_1.toUInt16 &&& 0x7f) <<< 4) ||| ((byte_2.toUInt16 &&& 0xf0) >>> 4) = oddLi &&& 0x07ff ∧
      (byte_2 &&& 0x08) >>> 3 = u8 (evenE &&& 0x01) ∧
      ((byte_2.toUInt16 &&& 0x07) <<< 8) ||| ((u8 (evenLi &&& 0x00ff)).toUInt16 &&& 0xff) = evenLi &&& 0x07ff := by
  simp only [u8, shl_and, shr_and]
  refine ⟨?_, ?_, ?_, ?_⟩
  case refine_2 | refine_4 =>
    apply UInt16.toBitVec_inj.mp
    simp only [UInt16.toBitVec_or, UInt16.toBitVec_and, UInt16.toBitVec_shiftLeft, UInt16.toBitVec_shiftRight,
      UInt8.toBitVec_toUInt16, UInt16.toBitVec_toUInt8]
    ext i hi
    interval_cases i <;> simp
  all_goals
    apply UInt8.toBitVec_inj.mp
    ext i hi
    interval_cases i <;> simp

theorem fields_odd_nack (before x after : UInt16) :
    (((u8 ((before &&& 0xfe) ||| shr_and x 9 0x01)).toUInt16 &&& 0x01) <<< 9) |||
        ((u8 (shr_and x 1 0xff)).toUInt16 <<< 1) |||
        (((u8 (shl_and x 7 0x80 ||| (after &&& 0x7f))).toUInt16 &&& 0x80) >>> 7) = x &&& 0x03ff := by
  simp only [u8, shl_and, shr_and]
  apply UInt16.toBitVec_inj.mp
  simp only [UInt16.toBitVec_or, UInt16.toBitVec_and, UInt16.toBitVec_shiftLeft, UInt16.toBitVec_shiftRight,
    UInt8.toBitVec_toUInt16, UInt16.toBitVec_toUInt8]
  ext i hi
  interval_cases i <;> simp

theorem fields_even_nack (before x after : UInt16) :
    (((u8 ((before &&& 0xe0) ||| shr_and x 5 0x1f)).toUInt16 &&& 0x1f) <<< 5) |||
        (((u8 (shl_and x 3 0xf8 ||| (after &&& 0x07))).toUInt16 &&& 0xf8) >>> 3) = x &&& 0x03ff := by
  simp only [u8, shl_and, shr_and]
  apply UInt16.toBitVec_inj.mp
  simp only [UInt16.toBitVec_or, UInt16.toBitVec_and, UInt16.toBitVec_shiftLeft, UInt16.toBitVec_shiftRight,
    UInt8.toBitVec_toUInt16, UInt16.toBitVec_toUInt8]
  ext i hi
  interval_cases i <;> simp

theorem fields_ack (t x after : UInt16) :
    let byte_1 := u8 (shl_and t 4 0x70 ||| shr_and x 6 0x0f)
    let byte_2 := u8 (shl_and x 2 0xfc ||| (after &&& 0x03))
    (byte_1 &&& 0x80) >>> 7 = 0 ∧ (byte_1 &&& 0x70) >>> 4 = u8 (t &&& 0x07) ∧
      (byte_2 &&& 0x02) >>> 1 = u8 ((after >>> 1) &&& 0x01) ∧
      ((byte_1.toUInt16 &&& 0x0f) <<< 6) ||| ((byte_2.toUInt16 &&& 0xfc) >>> 2) = x &&& 0x03ff := by
  simp only [u8, shl_and, shr_and]
  refine ⟨?_, ?_, ?_, ?_⟩
  case refine_4 =>
    apply UInt16.toBitVec_inj.mp
    simp only [UInt16.toBitVec_or, UInt16.toBitVec_and, UInt16.toBitVec_shiftLeft, UInt16.toBitVec_shiftRight,
      UInt8.toBitVec_toUInt16, UInt16.toBitVec_toUInt8]
    ext i hi
    interval_cases i <;> simp
  all_goals
    apply UInt8.toBitVec_inj.mp
    ext i hi
    interval_cases i <;> simp

/-! ## The loops -/

/-- The extension bits of length indicators, each one about the next. -/
def flags {α : Type} : List α → List ExtensionBit
  | [] => []
  | [_] => [data_field_follows]
  | _ :: lis => e_li_fields_follow :: flags lis

def li_size (n : ℕ) : ℕ := 3 * (n / 2) + 2 * (n % 2)

/-- A length indicator as the word that the header keeps. -/
def li_word (li : Fin 2048) : UInt16 := UInt16.ofNat li.val

theorem li_word_and (li : Fin 2048) : li_word li &&& 0x07ff = li_word li := by
  have hlt := li.isLt
  apply UInt16.toNat_inj.mp
  rw [li_word, UInt16.toNat_and, UInt16.toNat_ofNat', show (0x07ff : UInt16).toNat = 2 ^ 11 - 1 from rfl,
    Nat.and_two_pow_sub_one_eq_mod]
  omega

theorem li_fields (oddE evenE : ExtensionBit) (oddLi evenLi : Fin 2048) :
    let byte_1 := u8 (shl_and oddE.code 7 0x80 ||| shr_and (li_word oddLi) 4 0x007f)
    let byte_2 := u8 (shl_and (li_word oddLi) 4 0x00f0 ||| shl_and evenE.code 3 0x08 |||
      shr_and (li_word evenLi) 8 0x0007)
    extension_bit_of ((byte_1 &&& 0x80) >>> 7) = oddE ∧
      ((byte_1.toUInt16 &&& 0x7f) <<< 4) ||| ((byte_2.toUInt16 &&& 0xf0) >>> 4) = li_word oddLi ∧
      extension_bit_of ((byte_2 &&& 0x08) >>> 3) = evenE ∧
      ((byte_2.toUInt16 &&& 0x07) <<< 8) ||| ((u8 (li_word evenLi &&& 0x00ff)).toUInt16 &&& 0xff) = li_word evenLi := by
  obtain ⟨hodd, hoddLi, heven, hevenLi⟩ := fields_li oddE.code (li_word oddLi) evenE.code (li_word evenLi)
  refine ⟨?_, hoddLi.trans (li_word_and oddLi), ?_, hevenLi.trans (li_word_and evenLi)⟩
  · rw [hodd, extension_bit_of_code]
  · rw [heven, extension_bit_of_code]

/-- The header with some length indicators more. -/
def read_lis (h : LteRlcAmHeader) (lis : List (Fin 2048)) : LteRlcAmHeader :=
  { h with
    extension_bits := h.extension_bits ++ flags lis
    length_indicators := h.length_indicators ++ lis.map li_word
    header_length := h.header_length + UInt16.ofNat (li_size lis.length) }

theorem run_li_last (turns : ℕ) (h : LteRlcAmHeader) {byte_1 byte_2 : UInt8} {li : UInt16}
    (he : extension_bit_of ((byte_1 &&& 0x80) >>> 7) = data_field_follows)
    (hli : ((byte_1.toUInt16 &&& 0x7f) <<< 4) ||| ((byte_2.toUInt16 &&& 0xf0) >>> 4) = li) (rest : List UInt8) :
    (deserialize_li (turns + 1) h).run (byte_1 :: byte_2 :: rest) =
      some ({ h with
        extension_bits := h.extension_bits ++ [data_field_follows]
        length_indicators := h.length_indicators ++ [li]
        header_length := h.header_length + 2 }, rest) := by
  subst hli
  rw [← he]
  exact congrArg (fun r : Reader LteRlcAmHeader => r.run rest) (if_neg (by rw [he]; decide))

theorem run_li_pair (turns : ℕ) (h : LteRlcAmHeader) {byte_1 byte_2 byte_3 : UInt8} {oddLi evenLi : UInt16}
    {evenE : ExtensionBit} (ho : extension_bit_of ((byte_1 &&& 0x80) >>> 7) = e_li_fields_follow)
    (hodd : ((byte_1.toUInt16 &&& 0x7f) <<< 4) ||| ((byte_2.toUInt16 &&& 0xf0) >>> 4) = oddLi)
    (he : extension_bit_of ((byte_2 &&& 0x08) >>> 3) = evenE)
    (heven : ((byte_2.toUInt16 &&& 0x07) <<< 8) ||| (byte_3.toUInt16 &&& 0xff) = evenLi) (rest : List UInt8) :
    let h' := { h with
      extension_bits := h.extension_bits ++ [e_li_fields_follow, evenE]
      length_indicators := h.length_indicators ++ [oddLi, evenLi]
      header_length := h.header_length + 3 }
    (deserialize_li (turns + 1) h).run (byte_1 :: byte_2 :: byte_3 :: rest) =
      (if evenE = e_li_fields_follow then deserialize_li turns h' else pure h').run rest := by
  intro h'
  have hlength : h.header_length + 2 + 1 = h'.header_length := add_assoc h.header_length 2 1
  refine (congrArg (fun r : Reader LteRlcAmHeader => r.run (byte_3 :: rest)) (if_pos ho)).trans ?_
  have hbyte : read_u8.run (byte_3 :: rest) = some (byte_3, rest) := rfl
  rw [run_bind_of_run hbyte]
  simp only [ho, hodd, he, heven, hlength, List.append_assoc, List.singleton_append]
  rfl

theorem reads_li {lis : List (Fin 2048)} (hlis : lis ≠ []) (hturns : lis.length ≤ turns) :
    Reads (deserialize_li turns h) (serialize_li (flags lis) (lis.map li_word)) (read_lis h lis) := by
  induction lis using List.twoStepInduction generalizing h turns with
  | nil => exact absurd rfl hlis
  | singleton li =>
    obtain ⟨turns, rfl⟩ : ∃ n, turns = n + 1 := Nat.exists_eq_succ_of_ne_zero (by rintro rfl; simp at hturns)
    obtain ⟨he, hli, -, -⟩ := li_fields data_field_follows data_field_follows li 0
    rw [show shl_and data_field_follows.code 3 0x08 = 0 from rfl, show shr_and (li_word 0) 8 0x0007 = 0 from rfl,
      UInt16.or_zero, UInt16.or_zero] at hli
    intro rest
    refine (run_li_last turns h he hli rest).trans ?_
    simp [read_lis, flags, li_size]
  | cons_cons oddLi evenLi lis ih _ =>
    obtain ⟨turns, rfl⟩ : ∃ n, turns = n + 1 := Nat.exists_eq_succ_of_ne_zero (by rintro rfl; simp at hturns)
    intro rest
    cases lis with
    | nil =>
      obtain ⟨ho, hodd, he, heven⟩ := li_fields e_li_fields_follow data_field_follows oddLi evenLi
      refine (run_li_pair turns h ho hodd he heven rest).trans ?_
      rw [if_neg (by decide)]
      simp [read_lis, flags, li_size]
    | cons li lis =>
      obtain ⟨ho, hodd, he, heven⟩ := li_fields e_li_fields_follow e_li_fields_follow oddLi evenLi
      have hturns' : (li :: lis).length ≤ turns := by
        simp only [List.length_cons] at hturns ⊢
        omega
      have hsize : li_size (lis.length + 3) = 3 + li_size (lis.length + 1) := by
        rw [li_size, li_size]
        omega
      refine (run_li_pair turns h ho hodd he heven _).trans ?_
      rw [if_pos rfl]
      refine (ih (List.cons_ne_nil li lis) hturns' rest).trans ?_
      simp [read_lis, flags, hsize, UInt16.ofNat_add, add_assoc]

/-- What follows the last bit of a NACK in its byte when it is the first of two. -/
def follow : List UInt16 → UInt16
  | [] => 0
  | evenNack :: _ => 0x40 ||| shr_and evenNack 5 0x1f

/-- What follows the last bit of a NACK in its byte when it is the second of two. -/
def next_bits : List UInt16 → UInt16
  | [] => 0
  | nextNack :: _ => 0x04 ||| shr_and nextNack 9 0x01

theorem or_next_bits (x y : UInt16) (nacks : List UInt16) :
    x ||| 0x04 ||| shr_and y 9 0x01 = x ||| next_bits (y :: nacks) := UInt16.or_assoc ..

/-- The bytes of `serialize_nacks` after the two with the bits of the first NACK. -/
def after : List UInt16 → List UInt8
  | [] => []
  | [evenNack] => [u8 (shl_and evenNack 3 0xf8 ||| next_bits [])]
  | evenNack :: nextNack :: nacks =>
    u8 (shl_and evenNack 3 0xf8 ||| next_bits (nextNack :: nacks)) :: serialize_nacks nextNack nacks

theorem serialize_nacks_eq (x : UInt16) (nacks : List UInt16) :
    serialize_nacks x nacks = u8 (shr_and x 1 0xff) :: u8 (shl_and x 7 0x80 ||| follow nacks) :: after nacks := by
  match nacks with
  | [] => simp [serialize_nacks, follow, after]
  | [evenNack] => simp [serialize_nacks, follow, after, next_bits, UInt16.or_assoc]
  | evenNack :: nextNack :: nacks => simp [serialize_nacks, follow, after, next_bits, UInt16.or_assoc]

theorem follow_and (nacks : List UInt16) : follow nacks &&& 0x7f = follow nacks := by
  cases nacks with
  | nil => rfl
  | cons x nacks =>
    simp only [follow, shr_and]
    apply UInt16.toBitVec_inj.mp
    ext i hi
    interval_cases i <;> simp

theorem next_bits_and (nacks : List UInt16) : next_bits nacks &&& 0x07 = next_bits nacks := by
  cases nacks with
  | nil => rfl
  | cons x nacks =>
    simp only [next_bits, shr_and]
    apply UInt16.toBitVec_inj.mp
    ext i hi
    interval_cases i <;> simp

theorem odd_nack (before : UInt16) (x : Fin 1024) (nacks : List UInt16) (hbefore : before &&& 0xfe = before) :
    nack_of ((((u8 (before ||| shr_and (word x) 9 0x01)).toUInt16 &&& 0x01) <<< 9) |||
        ((u8 (shr_and (word x) 1 0xff)).toUInt16 <<< 1) |||
        (((u8 (shl_and (word x) 7 0x80 ||| follow nacks)).toUInt16 &&& 0x80) >>> 7)) = x := by
  have hfields := fields_odd_nack before (word x) (follow nacks)
  rw [hbefore, follow_and, word_and] at hfields
  rw [hfields, nack_of_word]

theorem even_nack (x : UInt16) (y : Fin 1024) (nacks nacks' : List UInt16) :
    nack_of ((((u8 (shl_and x 7 0x80 ||| follow (word y :: nacks'))).toUInt16 &&& 0x1f) <<< 5) |||
        (((u8 (shl_and (word y) 3 0xf8 ||| next_bits nacks)).toUInt16 &&& 0xf8) >>> 3)) = y := by
  have hbefore : (shl_and x 7 0x80 ||| 0x40) &&& 0xe0 = shl_and x 7 0x80 ||| 0x40 := by
    simp only [shl_and]
    apply UInt16.toBitVec_inj.mp
    ext i hi
    interval_cases i <;> simp
  have hfields := fields_even_nack (shl_and x 7 0x80 ||| 0x40) (word y) (next_bits nacks)
  rw [hbefore, next_bits_and, word_and] at hfields
  rw [follow, ← UInt16.or_assoc, hfields, nack_of_word]

theorem more_after_odd (x : UInt16) (nacks : List UInt16) :
    (u8 (shl_and x 7 0x80 ||| follow nacks) &&& 0x40) >>> 6 = if nacks = [] then 0 else 1 := by
  cases nacks with
  | nil =>
    simp only [follow, u8, shl_and, UInt16.or_zero, if_true]
    apply UInt8.toBitVec_inj.mp
    ext i hi
    interval_cases i <;> simp
  | cons y nacks =>
    simp only [follow, u8, shl_and, shr_and, if_neg (List.cons_ne_nil y nacks)]
    apply UInt8.toBitVec_inj.mp
    ext i hi
    interval_cases i <;> simp

theorem more_after_even (x : UInt16) (nacks : List UInt16) :
    (u8 (shl_and x 3 0xf8 ||| next_bits nacks) &&& 0x04) >>> 2 = if nacks = [] then 0 else 1 := by
  cases nacks with
  | nil =>
    simp only [next_bits, u8, shl_and, UInt16.or_zero, if_true]
    apply UInt8.toBitVec_inj.mp
    ext i hi
    interval_cases i <;> simp
  | cons y nacks =>
    simp only [next_bits, u8, shl_and, shr_and, if_neg (List.cons_ne_nil y nacks)]
    apply UInt8.toBitVec_inj.mp
    ext i hi
    interval_cases i <;> simp

/-- How many bytes the NACKs after the first one take. -/
def nack_size (n : ℕ) : ℕ := 3 * (n / 2) + n % 2

def read_nacks (h : LteRlcAmHeader) (nacks : List (Fin 1024)) : LteRlcAmHeader :=
  { h with
    nack_sn_list := h.nack_sn_list ++ nacks
    header_length := h.header_length + UInt16.ofNat (nack_size nacks.length) }

theorem run_nack_last (turns : ℕ) (h : LteRlcAmHeader) {byte nextByte : UInt8} {nack : Fin 1024}
    (hnack : nack_of (((byte.toUInt16 &&& 0x1f) <<< 5) ||| ((nextByte.toUInt16 &&& 0xf8) >>> 3)) = nack)
    (hmore : (nextByte &&& 0x04) >>> 2 = 0) (rest : List UInt8) :
    (deserialize_nacks (turns + 1) h byte).run (nextByte :: rest) = some (read_nacks h [nack], rest) := by
  have hlast : (nextByte &&& 0x04) >>> 2 ≠ 1 := by
    rw [hmore]
    decide
  refine (congrArg (fun r : Reader LteRlcAmHeader => r.run rest) (if_neg hlast)).trans ?_
  simp [hnack, read_nacks, nack_size]

theorem run_nack_pair (turns : ℕ) (h : LteRlcAmHeader) {byte byte_2 nextByte finalByte : UInt8} {evenNack nextNack : Fin 1024}
    (heven : nack_of (((byte.toUInt16 &&& 0x1f) <<< 5) ||| ((byte_2.toUInt16 &&& 0xf8) >>> 3)) = evenNack)
    (hmore : (byte_2 &&& 0x04) >>> 2 = 1)
    (hnext : nack_of (((byte_2.toUInt16 &&& 0x01) <<< 9) ||| (nextByte.toUInt16 <<< 1) |||
      ((finalByte.toUInt16 &&& 0x80) >>> 7)) = nextNack) (rest : List UInt8) :
    (deserialize_nacks (turns + 1) h byte).run (byte_2 :: nextByte :: finalByte :: rest) =
      (if (finalByte &&& 0x40) >>> 6 = 1 then deserialize_nacks turns (read_nacks h [evenNack, nextNack]) finalByte
        else pure (read_nacks h [evenNack, nextNack])).run rest := by
  refine (congrArg (fun r : Reader LteRlcAmHeader => r.run (nextByte :: finalByte :: rest)) (if_pos hmore)).trans ?_
  have hbyte : read_u8.run (nextByte :: finalByte :: rest) = some (nextByte, finalByte :: rest) := rfl
  have hfinal : read_u8.run (finalByte :: rest) = some (finalByte, rest) := rfl
  rw [run_bind_of_run hbyte, run_bind_of_run hfinal]
  have hread : { h with
      nack_sn_list := h.nack_sn_list ++ [evenNack, nextNack]
      header_length := h.header_length + 3 } = read_nacks h [evenNack, nextNack] := by
    simp [read_nacks, nack_size]
  simp only [heven, hnext, List.append_assoc, List.singleton_append, hread]

theorem reads_nacks {x : UInt16} {nacks : List (Fin 1024)} (hnacks : nacks ≠ []) (hturns : nacks.length ≤ turns) :
    Reads (deserialize_nacks turns h (u8 (shl_and x 7 0x80 ||| follow (nacks.map word)))) (after (nacks.map word))
      (read_nacks h nacks) := by
  induction nacks using List.twoStepInduction generalizing h turns x with
  | nil => exact absurd rfl hnacks
  | singleton nack =>
    obtain ⟨turns, rfl⟩ : ∃ n, turns = n + 1 := Nat.exists_eq_succ_of_ne_zero (by rintro rfl; simp at hturns)
    intro rest
    exact run_nack_last turns h (even_nack x nack [] []) (more_after_even (word nack) []) rest
  | cons_cons evenNack nextNack nacks ih _ =>
    obtain ⟨turns, rfl⟩ : ∃ n, turns = n + 1 := Nat.exists_eq_succ_of_ne_zero (by rintro rfl; simp at hturns)
    have hbefore : (shl_and (word evenNack) 3 0xf8 ||| 0x04) &&& 0xfe = shl_and (word evenNack) 3 0xf8 ||| 0x04 := by
      simp only [shl_and]
      apply UInt16.toBitVec_inj.mp
      ext i hi
      interval_cases i <;> simp
    have heven := even_nack x evenNack (word nextNack :: nacks.map word) (word nextNack :: nacks.map word)
    have hnext := odd_nack _ nextNack (nacks.map word) hbefore
    rw [or_next_bits _ _ (nacks.map word)] at hnext
    intro rest
    have hbytes : after ((evenNack :: nextNack :: nacks).map word) ++ rest =
        u8 (shl_and (word evenNack) 3 0xf8 ||| next_bits (word nextNack :: nacks.map word)) ::
          u8 (shr_and (word nextNack) 1 0xff) ::
          u8 (shl_and (word nextNack) 7 0x80 ||| follow (nacks.map word)) :: (after (nacks.map word) ++ rest) := by
      rw [List.map_cons, List.map_cons, after, serialize_nacks_eq]
      rfl
    have hmore := more_after_even (word evenNack) (word nextNack :: nacks.map word)
    rw [if_neg (List.cons_ne_nil _ _)] at hmore
    rw [hbytes]
    refine (run_nack_pair turns h heven hmore hnext _).trans ?_
    rw [more_after_odd]
    cases nacks with
    | nil => rfl
    | cons nack nacks =>
      have hturns' : (nack :: nacks).length ≤ turns := by
        simp only [List.length_cons] at hturns ⊢
        omega
      have hsize : nack_size (nacks.length + 3) = 3 + nack_size (nacks.length + 1) := by
        rw [nack_size, nack_size]
        omega
      rw [List.map_cons, if_neg (List.cons_ne_nil _ _), if_pos rfl]
      refine (ih (List.cons_ne_nil nack nacks) hturns' rest).trans ?_
      simp [read_nacks, show nack_size 2 = 3 from rfl, hsize, UInt16.ofNat_add, add_assoc]

/-! ## The PDUs -/

/-- The fields of a data PDU. -/
structure DataPdu where
  sequence_number : SequenceNumber10 := {}
  framing_info : Fin 4 := 0
  polling_bit : Bool := false
  resegmentation_flag : Bool := false
  last_segment_flag : Bool := false
  segment_offset : Fin 0x8000 := 0
  length_indicators : List (Fin 2048) := []

def push_li (h : LteRlcAmHeader) (li : Fin 2048) : LteRlcAmHeader :=
  (h.push_extension_bit e_li_fields_follow).push_length_indicator (li_word li)

/-- The header that the setters make of the fields, an extension bit for each length indicator and a last one. -/
def DataPdu.header (p : DataPdu) : LteRlcAmHeader :=
  let h := ({ set_data_pdu {} with
    sequence_number := p.sequence_number
    polling_bit := p.polling_bit
    resegmentation_flag := p.resegmentation_flag
    last_segment_flag := p.last_segment_flag }.set_framing_info (UInt8.ofNat p.framing_info.val)).set_segment_offset
      (UInt16.ofNat p.segment_offset.val)
  (p.length_indicators.foldl push_li h).push_extension_bit data_field_follows

/-- The fields of a STATUS PDU. -/
structure StatusPdu where
  ack_sn : SequenceNumber10 := {}
  nacks : List (Fin 1024) := []

def StatusPdu.header (p : StatusPdu) : LteRlcAmHeader :=
  p.nacks.foldl push_nack { set_control_pdu {} status_pdu with ack_sn := p.ack_sn }

def DataPdu.size (p : DataPdu) : ℕ := 4 + li_size p.length_indicators.length

def StatusPdu.size (p : StatusPdu) : ℕ := if p.nacks = [] then 2 else 4 + nack_size (p.nacks.length - 1)

theorem push_extension_bit_eq {e : ExtensionBit}
    (hlength : h.header_length = 4 + UInt16.ofNat (li_size (h.extension_bits.length - 1))) :
    h.push_extension_bit e = { h with
      extension_bits := h.extension_bits ++ [e]
      header_length := 4 + UInt16.ofNat (li_size h.extension_bits.length) } := by
  have hsize : ∀ n, li_size (n + 1) = li_size n + if (n + 2) % 2 = 1 then 1 else 2 := by
    intro n
    rw [li_size, li_size]
    split_ifs <;> omega
  have hgrown : (h.push_extension_bit e).header_length = 4 + UInt16.ofNat (li_size h.extension_bits.length) := by
    simp only [push_extension_bit, List.length_append, List.length_singleton, hlength]
    rcases hn : h.extension_bits.length with _ | n
    · rfl
    · rw [if_pos (by omega), hsize, UInt16.ofNat_add]
      split_ifs <;> exact add_assoc ..
  rw [← hgrown]
  rfl

theorem foldl_push_li (hbits : h.extension_bits = []) (hlis : h.length_indicators = []) (hlength : h.header_length = 4)
    (lis : List (Fin 2048)) :
    lis.foldl push_li h = { h with
      extension_bits := List.replicate lis.length e_li_fields_follow
      length_indicators := lis.map li_word
      header_length := 4 + UInt16.ofNat (li_size (lis.length - 1)) } := by
  induction lis using List.reverseRecOn with
  | nil =>
    cases h
    simp_all [li_size]
  | append_singleton lis li ih =>
    rw [List.foldl_append, List.foldl_cons, List.foldl_nil, push_li,
      push_extension_bit_eq (by rw [ih, List.length_replicate]), ih]
    simp [push_length_indicator, List.replicate_succ']

theorem flags_eq (lis : List (Fin 2048)) :
    List.replicate lis.length e_li_fields_follow ++ [data_field_follows] =
      (if lis = [] then data_field_follows else e_li_fields_follow) :: flags lis := by
  induction lis with
  | nil => rfl
  | cons li lis ih =>
    cases lis with
    | nil => rfl
    | cons li' lis =>
      rw [List.length_cons, List.replicate_succ, List.cons_append, ih, if_neg (List.cons_ne_nil _ _),
        if_neg (List.cons_ne_nil _ _)]
      rfl

def DataPdu.first_bit (p : DataPdu) : ExtensionBit :=
  if p.length_indicators = [] then data_field_follows else e_li_fields_follow

theorem DataPdu.header_eq (p : DataPdu) :
    p.header = { set_data_pdu {} with
      header_length := UInt16.ofNat p.size
      sequence_number := p.sequence_number
      polling_bit := p.polling_bit
      framing_info := UInt8.ofNat p.framing_info.val
      resegmentation_flag := p.resegmentation_flag
      last_segment_flag := p.last_segment_flag
      segment_offset := UInt16.ofNat p.segment_offset.val
      extension_bits := p.first_bit :: flags p.length_indicators
      length_indicators := p.length_indicators.map li_word } := by
  have hframing : ∀ f : Fin 4, UInt8.ofNat f.val &&& 0x03 = UInt8.ofNat f.val := by decide
  have hoffset : UInt16.ofNat p.segment_offset.val &&& 0x7fff = UInt16.ofNat p.segment_offset.val := by
    have hlt := p.segment_offset.isLt
    apply UInt16.toNat_inj.mp
    rw [UInt16.toNat_and, UInt16.toNat_ofNat', show (0x7fff : UInt16).toNat = 2 ^ 15 - 1 from rfl,
      Nat.and_two_pow_sub_one_eq_mod]
    omega
  rw [DataPdu.header, set_framing_info, set_segment_offset, foldl_push_li rfl rfl rfl,
    push_extension_bit_eq (by rw [List.length_replicate]), flags_eq, hframing, hoffset, List.length_replicate]
  simp [DataPdu.size, DataPdu.first_bit, UInt16.ofNat_add]

theorem foldl_push_nack (hnacks : h.nack_sn_list = []) (hlength : h.header_length = 2) (nacks : List (Fin 1024)) :
    nacks.foldl push_nack h = { h with
      nack_sn_list := nacks
      header_length := UInt16.ofNat (if nacks = [] then 2 else 4 + nack_size (nacks.length - 1)) } := by
  induction nacks using List.reverseRecOn with
  | nil =>
    cases h
    simp_all
  | append_singleton nacks nack ih =>
    have hsize : (if (nacks.length + 1) % 2 = 0 then 1 else 2) + (if nacks = [] then 2 else 4 + nack_size (nacks.length - 1)) =
        4 + nack_size nacks.length := by
      rcases nacks with _ | ⟨x, nacks⟩
      · rfl
      · rw [if_neg (List.cons_ne_nil x nacks), List.length_cons, nack_size, nack_size]
        split_ifs <;> omega
    have hgrown : ∀ l : UInt16, (if (nacks.length + 1) % 2 = 0 then l + 1 else l + 2) =
        UInt16.ofNat (if (nacks.length + 1) % 2 = 0 then 1 else 2) + l := by
      intro l
      split_ifs <;> exact add_comm ..
    rw [List.foldl_append, List.foldl_cons, List.foldl_nil, ih]
    simp [push_nack, hgrown, ← UInt16.ofNat_add, hsize]

theorem StatusPdu.header_eq (p : StatusPdu) :
    p.header = { set_control_pdu {} status_pdu with
      header_length := UInt16.ofNat p.size
      ack_sn := p.ack_sn
      nack_sn_list := p.nacks } := foldl_push_nack rfl rfl p.nacks

/-! ## The bytes -/

theorem length_serialize_li (es : List ExtensionBit) (lis : List UInt16) :
    (serialize_li es lis).length = li_size (min es.length lis.length) := by
  induction es using List.twoStepInduction generalizing lis with
  | nil => simp [serialize_li, li_size]
  | singleton e =>
    cases lis with
    | nil => simp [serialize_li, li_size]
    | cons li lis => simp [serialize_li, li_size]
  | cons_cons oddE evenE es ih _ =>
    obtain _ | ⟨oddLi, _ | ⟨evenLi, lis⟩⟩ := lis
    · simp [serialize_li, li_size]
    · simp [serialize_li, li_size]
    · rw [serialize_li, List.length_append, ih]
      simp only [List.length_cons, List.length_nil]
      rw [Nat.add_min_add_right, Nat.add_min_add_right, li_size, li_size]
      omega

theorem length_flags {α : Type} (lis : List α) : (flags lis).length = lis.length := by
  induction lis with
  | nil => rfl
  | cons li lis ih =>
    cases lis with
    | nil => rfl
    | cons next lis => exact congrArg Nat.succ ih

theorem length_serialize_nacks (nack : UInt16) (nacks : List UInt16) :
    (serialize_nacks nack nacks).length = 2 + nack_size nacks.length := by
  induction nacks using List.twoStepInduction generalizing nack with
  | nil => rfl
  | singleton => simp [serialize_nacks, nack_size]
  | cons_cons evenNack nextNack nacks ih _ =>
    have hsize : nack_size (nacks.length + 1 + 1) = 3 + nack_size nacks.length := by
      rw [nack_size, nack_size]
      omega
    rw [List.length_cons, List.length_cons, hsize, serialize_nacks, List.length_append, ih]
    simp only [List.length_cons, List.length_nil]
    omega

def DataPdu.bytes (p : DataPdu) : List UInt8 :=
  let sn := word p.sequence_number.value
  let offset := UInt16.ofNat p.segment_offset.val
  [u8 (0x80 ||| shl_and (bit p.resegmentation_flag) 6 0x40 ||| shl_and (bit p.polling_bit) 5 0x20 |||
      shl_and (UInt8.ofNat p.framing_info.val).toUInt16 3 0x18 ||| shl_and p.first_bit.code 2 0x04 ||| shr_and sn 8 0x0003),
    u8 (sn &&& 0x00ff), u8 (shl_and (bit p.last_segment_flag) 7 0x80 ||| shr_and offset 8 0x007f),
    u8 (offset &&& 0x00ff)] ++ serialize_li (flags p.length_indicators) (p.length_indicators.map li_word)

theorem DataPdu.serialize_header (p : DataPdu) : p.header.serialize = some p.bytes := by
  rw [p.header_eq]
  rfl

theorem DataPdu.length_bytes (p : DataPdu) : p.bytes.length = p.size := by
  rw [DataPdu.bytes, DataPdu.size, List.length_append, length_serialize_li, length_flags, List.length_map, min_self]
  rfl

def StatusPdu.bytes (p : StatusPdu) : List UInt8 :=
  let ack := word p.ack_sn.value
  let first := u8 (shl_and status_pdu.toUInt16 4 0x70 ||| shr_and ack 6 0x0f)
  match p.nacks.map word with
  | [] => [first, u8 (shl_and ack 2 0xfc)]
  | nack :: nacks => [first, u8 (shl_and ack 2 0xfc ||| 0x02 ||| shr_and nack 9 0x01)] ++ serialize_nacks nack nacks

theorem StatusPdu.serialize_header (p : StatusPdu) : p.header.serialize = some p.bytes := by
  rw [p.header_eq, StatusPdu.bytes]
  simp only [serialize, set_control_pdu]
  cases p.nacks <;> rfl

theorem StatusPdu.length_bytes (p : StatusPdu) : p.bytes.length = p.size := by
  rw [StatusPdu.bytes, StatusPdu.size]
  cases p.nacks with
  | nil => rfl
  | cons nack nacks =>
    rw [if_neg (List.cons_ne_nil nack nacks)]
    simp only [List.map_cons, List.length_append, length_serialize_nacks, List.length_map, List.length_cons,
      List.length_nil, Nat.add_sub_cancel]
    omega

/-! ## What is read -/

/-- A header that nothing was pushed into. -/
structure Fresh (h : LteRlcAmHeader) : Prop where
  extension_bits : h.extension_bits = []
  length_indicators : h.length_indicators = []
  nack_sn_list : h.nack_sn_list = []

/-- What a data PDU header says, of two headers. -/
structure SameData (h h' : LteRlcAmHeader) : Prop where
  data_control : h'.data_control = .data_pdu
  resegmentation_flag : h'.resegmentation_flag = h.resegmentation_flag
  polling_bit : h'.polling_bit = h.polling_bit
  framing_info : h'.framing_info = h.framing_info
  sequence_number : h'.sequence_number.value = h.sequence_number.value
  last_segment_flag : h'.last_segment_flag = h.last_segment_flag
  segment_offset : h'.segment_offset = h.segment_offset
  extension_bits : h'.extension_bits = h.extension_bits
  length_indicators : h'.length_indicators = h.length_indicators

/-- The same for a STATUS PDU. -/
structure SameStatus (h h' : LteRlcAmHeader) : Prop where
  data_control : h'.data_control = .control_pdu
  control_pdu_type : h'.control_pdu_type = h.control_pdu_type
  ack_sn : h'.ack_sn.value = h.ack_sn.value
  nack_sn_list : h'.nack_sn_list = h.nack_sn_list

theorem u8_bit (b : Bool) : decide (u8 (bit b &&& 0x01) = 1) = b := by
  cases b <;> rfl

theorem u8_framing_info (f : Fin 4) : u8 ((UInt8.ofNat f.val).toUInt16 &&& 0x03) = UInt8.ofNat f.val := by
  revert f
  decide

/-- The segment offset that `Deserialize` makes of the two bytes. -/
def read_offset (segment_offset : UInt16) : UInt16 := shr_and segment_offset 8 0x7f ||| (segment_offset &&& 0x00ff)

/-- The header when the fixed part of a data PDU is read. -/
def DataPdu.read_fixed (p : DataPdu) (fresh : LteRlcAmHeader) : LteRlcAmHeader :=
  { fresh with
    header_length := 4
    data_control := .data_pdu
    resegmentation_flag := p.resegmentation_flag
    polling_bit := p.polling_bit
    framing_info := UInt8.ofNat p.framing_info.val
    sequence_number := { fresh.sequence_number with value := p.sequence_number.value }
    last_segment_flag := p.last_segment_flag
    segment_offset := read_offset (UInt16.ofNat p.segment_offset.val)
    extension_bits := fresh.extension_bits ++ [p.first_bit] }

theorem DataPdu.run_fixed (p : DataPdu) (fresh : LteRlcAmHeader) (rest : List UInt8) :
    let h := p.read_fixed fresh
    let lis := serialize_li (flags p.length_indicators) (p.length_indicators.map li_word)
    let size := (p.bytes ++ rest).length
    fresh.deserialize.run (p.bytes ++ rest) = (if p.first_bit = data_field_follows then pure h
      else do
        let h ← deserialize_li size h
        return if h.resegmentation_flag then
          { h with last_offset := h.segment_offset + UInt16.ofNat size - h.header_length } else h).run (lis ++ rest) := by
  intro h lis size
  obtain ⟨hdata, hseg, hpoll, hframing, he, hsn⟩ := fields_data (bit p.resegmentation_flag) (bit p.polling_bit)
    (UInt8.ofNat p.framing_info.val).toUInt16 p.first_bit.code (word p.sequence_number.value)
  obtain ⟨hlast, hoffset, hlow⟩ := fields_offset (bit p.last_segment_flag) (UInt16.ofNat p.segment_offset.val)
  rw [u8_framing_info] at hframing
  rw [word_and] at hsn
  have hvalue : nack_of (word p.sequence_number.value) = p.sequence_number.value := nack_of_word _
  refine (congrArg (fun r : Reader LteRlcAmHeader => r.run (p.bytes ++ rest).tail) (if_pos hdata)).trans ?_
  refine (run_bind_of_run (r := read_u8) rfl _).trans ?_
  refine (run_bind_of_run (r := read_u8) rfl _).trans ?_
  refine (run_bind_of_run (r := read_u8) rfl _).trans ?_
  simp only [hseg, hpoll, hframing, he, hsn, hlast, hoffset, hlow, hvalue, u8_bit, extension_bit_of_code]
  rfl

theorem DataPdu.run_deserialize (p : DataPdu) (hfresh : Fresh fresh) (rest : List UInt8) :
    ∃ h', fresh.deserialize.run (p.bytes ++ rest) = some (h', rest) ∧ h'.header_length = UInt16.ofNat p.size ∧
      SameData { p.header with segment_offset := read_offset p.header.segment_offset } h' := by
  have hbits : (p.read_fixed fresh).extension_bits = [p.first_bit] := by
    rw [DataPdu.read_fixed, hfresh.extension_bits, List.nil_append]
  have hlis : (p.read_fixed fresh).length_indicators = [] := hfresh.length_indicators
  rw [p.run_fixed, p.header_eq]
  by_cases hnil : p.length_indicators = []
  · have hfirst : p.first_bit = data_field_follows := if_pos hnil
    refine ⟨p.read_fixed fresh, ?_, ?_, ⟨rfl, rfl, rfl, rfl, rfl, rfl, rfl, ?_, ?_⟩⟩
    · rw [if_pos hfirst, hnil]
      rfl
    · rw [DataPdu.size, hnil]
      rfl
    · rw [hbits, hnil]
      rfl
    · rw [hlis, hnil]
      rfl
  · have hfirst : p.first_bit ≠ data_field_follows := by
      rw [DataPdu.first_bit, if_neg hnil]
      decide
    have hturns : p.length_indicators.length ≤ (p.bytes ++ rest).length := by
      rw [List.length_append, DataPdu.length_bytes, DataPdu.size, li_size]
      omega
    have hread := reads_li (h := p.read_fixed fresh) hnil hturns rest
    rw [if_neg hfirst, run_bind_of_run hread]
    refine ⟨_, rfl, ?_, ?_⟩
    · have hsize : UInt16.ofNat p.size = 4 + UInt16.ofNat (li_size p.length_indicators.length) := UInt16.ofNat_add ..
      rw [hsize]
      split_ifs <;> rfl
    · split_ifs
      all_goals
        refine ⟨rfl, rfl, rfl, rfl, rfl, rfl, rfl, ?_, ?_⟩
        · simp [read_lis, hbits]
        · simp [read_lis, hlis]

/-- The header when the first two bytes of a STATUS PDU are read. -/
def StatusPdu.read_ack (p : StatusPdu) (fresh : LteRlcAmHeader) : LteRlcAmHeader :=
  { fresh with
    data_control := .control_pdu
    control_pdu_type := status_pdu
    ack_sn := { fresh.ack_sn with value := p.ack_sn.value } }

theorem StatusPdu.run_ack (p : StatusPdu) (fresh : LteRlcAmHeader) {first byte_2 : UInt8} (after : UInt16)
    (hfirst : first = u8 (shl_and status_pdu.toUInt16 4 0x70 ||| shr_and (word p.ack_sn.value) 6 0x0f))
    (hbyte : byte_2 = u8 (shl_and (word p.ack_sn.value) 2 0xfc ||| (after &&& 0x03))) (rest : List UInt8) :
    fresh.deserialize.run (first :: byte_2 :: rest) =
      (if u8 ((after >>> 1) &&& 0x01) = 1 then do
        let byte_3 ← read_u8
        let byte_4 ← read_u8
        let nack := nack_of (((byte_2.toUInt16 &&& 0x01) <<< 9) ||| (byte_3.toUInt16 <<< 1) |||
          ((byte_4.toUInt16 &&& 0x80) >>> 7))
        let h := { p.read_ack fresh with header_length := 4, nack_sn_list := (p.read_ack fresh).nack_sn_list ++ [nack] }
        if (byte_4 &&& 0x40) >>> 6 = 1 then deserialize_nacks (rest.length + 2) h byte_4 else return h
      else return { p.read_ack fresh with header_length := 2 }).run rest := by
  obtain ⟨hcontrol, htype, hmore, hack⟩ := fields_ack status_pdu.toUInt16 (word p.ack_sn.value) after
  rw [← hfirst] at hcontrol htype hack
  rw [← hbyte] at hmore hack
  rw [show u8 (status_pdu.toUInt16 &&& 0x07) = status_pdu from rfl] at htype
  rw [word_and] at hack
  have hvalue : nack_of (word p.ack_sn.value) = p.ack_sn.value := nack_of_word _
  have hdata : (first &&& 0x80) >>> 7 ≠ 1 := by
    rw [hcontrol]
    decide
  refine (congrArg (fun r : Reader LteRlcAmHeader => r.run (byte_2 :: rest)) (if_neg hdata)).trans ?_
  refine (run_bind_of_run (r := read_u8) rfl _).trans ?_
  simp only [htype, hmore, hack, hvalue]
  rfl

theorem StatusPdu.run_deserialize (p : StatusPdu) (hfresh : Fresh fresh) (rest : List UInt8) :
    ∃ h', fresh.deserialize.run (p.bytes ++ rest) = some (h', rest) ∧ h'.header_length = UInt16.ofNat p.size ∧
      SameStatus p.header h' := by
  have hlist : (p.read_ack fresh).nack_sn_list = [] := hfresh.nack_sn_list
  rw [p.header_eq, StatusPdu.size, StatusPdu.bytes]
  cases hnacks : p.nacks with
  | nil =>
    refine ⟨{ p.read_ack fresh with header_length := 2 }, ?_, rfl, ⟨rfl, rfl, rfl, hlist⟩⟩
    exact p.run_ack fresh 0 rfl (by rw [UInt16.zero_and, UInt16.or_zero]) rest
  | cons nack nacks =>
    have hafter : (0x02 ||| shr_and (word nack) 9 0x01) &&& 0x03 = 0x02 ||| shr_and (word nack) 9 0x01 := by
      simp only [shr_and]
      apply UInt16.toBitVec_inj.mp
      ext i hi
      interval_cases i <;> simp
    have hmore : u8 (((0x02 ||| shr_and (word nack) 9 0x01) >>> 1) &&& 0x01) = 1 := by
      simp only [u8, shr_and]
      apply UInt8.toBitVec_inj.mp
      ext i hi
      interval_cases i <;> simp
    have hbefore : (shl_and (word p.ack_sn.value) 2 0xfc ||| 0x02) &&& 0xfe = shl_and (word p.ack_sn.value) 2 0xfc ||| 0x02 := by
      simp only [shl_and]
      apply UInt16.toBitVec_inj.mp
      ext i hi
      interval_cases i <;> simp
    have hnack := odd_nack _ nack (nacks.map word) hbefore
    have hbytes : serialize_nacks (word nack) (nacks.map word) ++ rest = u8 (shr_and (word nack) 1 0xff) ::
        u8 (shl_and (word nack) 7 0x80 ||| follow (nacks.map word)) :: (after (nacks.map word) ++ rest) := by
      rw [serialize_nacks_eq]
      rfl
    have hsecond : u8 (shl_and (word p.ack_sn.value) 2 0xfc ||| 0x02 ||| shr_and (word nack) 9 0x01) =
        u8 (shl_and (word p.ack_sn.value) 2 0xfc ||| ((0x02 ||| shr_and (word nack) 9 0x01) &&& 0x03)) := by
      rw [hafter, UInt16.or_assoc]
    have hrun := p.run_ack fresh _ rfl hsecond (serialize_nacks (word nack) (nacks.map word) ++ rest)
    rw [if_pos hmore, hbytes, run_bind_of_run (r := read_u8) rfl, run_bind_of_run (r := read_u8) rfl] at hrun
    simp only [hnack, more_after_odd, hlist, List.nil_append] at hrun
    rw [List.map_cons, List.append_assoc, List.cons_append, List.singleton_append, hbytes, hrun]
    cases nacks with
    | nil =>
      refine ⟨_, rfl, ?_, rfl, rfl, rfl, rfl⟩
      simp [nack_size]
    | cons next nacks =>
      have hlength := length_serialize_nacks (word nack) ((next :: nacks).map word)
      have hturns : (next :: nacks).length ≤ (serialize_nacks (word nack) ((next :: nacks).map word) ++ rest).length + 2 := by
        rw [List.length_append, hlength, List.length_map, nack_size]
        omega
      rw [hbytes] at hturns
      rw [List.map_cons, if_neg (List.cons_ne_nil _ _), if_pos rfl, ← List.map_cons]
      refine ⟨_, reads_nacks (List.cons_ne_nil next nacks) hturns rest, ?_, rfl, rfl, rfl, rfl⟩
      rw [if_neg (List.cons_ne_nil _ _), List.length_cons, Nat.add_sub_cancel, UInt16.ofNat_add]
      rfl

/-! ## The round trip -/

/-- A header that is sent. -/
inductive Pdu
  | data (p : DataPdu)
  | status (p : StatusPdu)

namespace Pdu

def header : Pdu → LteRlcAmHeader
  | data p => p.header
  | status p => p.header

def size : Pdu → ℕ
  | data p => p.size
  | status p => p.size

/-- The second header says what the first does. -/
def Same : Pdu → LteRlcAmHeader → Prop
  | data p, h' => SameData p.header h'
  | status p, h' => SameStatus p.header h'

/-- The header is written in the bytes that its size announces, and a fresh header takes these bytes, whatever follows
them, and says the same. -/
def RoundTrips (p : Pdu) : Prop :=
  ∃ bytes, p.header.serialize = some bytes ∧ bytes.length = p.header.get_serialized_size.toNat ∧
    ∀ fresh, Fresh fresh → ∀ rest, ∃ h', fresh.deserialize.run (bytes ++ rest) = some (h', rest) ∧
      h'.get_serialized_size.toNat = bytes.length ∧ p.Same h'

/-- The segment offset is one that a byte holds. -/
def LowOffset : Pdu → Prop
  | data p => p.segment_offset.val < 256
  | status _ => True

end Pdu

theorem toNat_read_offset (offset : Fin 0x8000) :
    (read_offset (UInt16.ofNat offset.val)).toNat = offset.val / 2 ^ 8 % 2 ^ 7 ||| offset.val % 2 ^ 8 := by
  have hlt := offset.isLt
  have hvalue : (UInt16.ofNat offset.val).toNat = offset.val := by
    rw [UInt16.toNat_ofNat', Nat.mod_eq_of_lt (by omega)]
  rw [read_offset, shr_and, UInt16.toNat_or, UInt16.toNat_and, UInt16.toNat_and, UInt16.toNat_shiftRight,
    show (8 : UInt16).toNat % 16 = 8 from rfl, show (0x7f : UInt16).toNat = 2 ^ 7 - 1 from rfl,
    show (0x00ff : UInt16).toNat = 2 ^ 8 - 1 from rfl, Nat.and_two_pow_sub_one_eq_mod, Nat.and_two_pow_sub_one_eq_mod,
    hvalue, Nat.shiftRight_eq_div_pow]

theorem read_offset_eq_iff (offset : Fin 0x8000) :
    read_offset (UInt16.ofNat offset.val) = UInt16.ofNat offset.val ↔ offset.val < 256 := by
  have hlt := offset.isLt
  have hvalue : (UInt16.ofNat offset.val).toNat = offset.val := by
    rw [UInt16.toNat_ofNat', Nat.mod_eq_of_lt (by omega)]
  rw [← UInt16.toNat_inj, toNat_read_offset, hvalue]
  constructor
  · intro heq
    have hor : offset.val / 2 ^ 8 % 2 ^ 7 ||| offset.val % 2 ^ 8 < 2 ^ 8 := Nat.or_lt_two_pow (by omega) (by omega)
    rwa [heq] at hor
  · intro hlow
    rw [show offset.val / 2 ^ 8 = 0 by omega, Nat.zero_mod, Nat.zero_or, Nat.mod_eq_of_lt (by omega)]

theorem Pdu.serialize_header (p : Pdu) :
    ∃ bytes, p.header.serialize = some bytes ∧ bytes.length = p.size ∧ p.header.header_length = UInt16.ofNat p.size := by
  cases p with
  | data p => exact ⟨p.bytes, p.serialize_header, p.length_bytes, by rw [Pdu.header, p.header_eq]; rfl⟩
  | status p => exact ⟨p.bytes, p.serialize_header, p.length_bytes, by rw [Pdu.header, p.header_eq]; rfl⟩

theorem Pdu.run_deserialize (p : Pdu) {bytes : List UInt8} (hbytes : p.header.serialize = some bytes)
    (hfresh : Fresh fresh) (rest : List UInt8) :
    ∃ h', fresh.deserialize.run (bytes ++ rest) = some (h', rest) ∧ h'.header_length = UInt16.ofNat p.size ∧
      (p.Same h' ↔ p.LowOffset) := by
  cases p with
  | data p =>
    obtain rfl : p.bytes = bytes := Option.some_inj.mp (p.serialize_header.symm.trans hbytes)
    obtain ⟨h', hrun, hlength, hsame⟩ := p.run_deserialize hfresh rest
    have hoffset : p.header.segment_offset = UInt16.ofNat p.segment_offset.val := by rw [p.header_eq]
    refine ⟨h', hrun, hlength, ?_⟩
    have hread : h'.segment_offset = read_offset p.header.segment_offset := hsame.segment_offset
    rw [LowOffset, ← read_offset_eq_iff, ← hoffset, ← hread]
    exact ⟨fun hsame' => hsame'.segment_offset, fun heq => { hsame with segment_offset := heq }⟩
  | status p =>
    obtain rfl : p.bytes = bytes := Option.some_inj.mp (p.serialize_header.symm.trans hbytes)
    obtain ⟨h', hrun, hlength, hsame⟩ := p.run_deserialize hfresh rest
    exact ⟨h', hrun, hlength, iff_of_true hsame trivial⟩

/-- The header is read back as it was written exactly if its size is one that the header length holds and, in a data
PDU, its segment offset is one that a byte holds. -/
theorem round_trip_iff (p : Pdu) : p.RoundTrips ↔ p.size < 65536 ∧ p.LowOffset := by
  obtain ⟨bytes, hbytes, hlength, hsize⟩ := p.serialize_header
  have hannounced : p.header.get_serialized_size.toNat = p.size % 65536 := by
    rw [get_serialized_size, hsize]
    exact UInt16.toNat_ofNat' ..
  constructor
  · rintro ⟨bytes', hbytes', hlength', hread⟩
    have hfresh : Fresh {} := ⟨rfl, rfl, rfl⟩
    obtain rfl : bytes = bytes' := Option.some_inj.mp (hbytes.symm.trans hbytes')
    obtain ⟨h', hrun, -, hsame⟩ := p.run_deserialize hbytes hfresh []
    obtain ⟨h'', hrun', -, hsame'⟩ := hread {} hfresh []
    obtain rfl : h' = h'' := congrArg Prod.fst (Option.some_inj.mp (hrun.symm.trans hrun'))
    exact ⟨by omega, hsame.mp hsame'⟩
  · rintro ⟨hlt, hlow⟩
    refine ⟨bytes, hbytes, by rw [hannounced, hlength, Nat.mod_eq_of_lt hlt], ?_⟩
    intro fresh hfresh rest
    obtain ⟨h', hrun, hread, hsame⟩ := p.run_deserialize hbytes hfresh rest
    refine ⟨h', hrun, ?_, hsame.mpr hlow⟩
    rw [get_serialized_size, hread, hlength, UInt16.toNat_ofNat', Nat.mod_eq_of_lt hlt]

/-- A segment that starts at byte 256 is read as one that starts at byte 1. -/
theorem segment_offset_lost : ¬(Pdu.data { segment_offset := 256 }).RoundTrips := by
  rintro ⟨bytes, hbytes, -, hread⟩
  obtain ⟨h', hrun, -, hsame⟩ := hread {} ⟨rfl, rfl, rfl⟩ []
  obtain rfl : bytes = [0x80, 0, 1, 0] := Option.some_inj.mp (hbytes.symm.trans (by decide))
  have hoffset : h'.segment_offset = 1 :=
    congrArg (fun r : LteRlcAmHeader × List UInt8 => r.1.segment_offset) (Option.some_inj.mp hrun).symm
  have hsent := hsame.segment_offset
  rw [hoffset] at hsent
  exact absurd hsent (by decide)

end Ns3.LteRlcAmHeader
