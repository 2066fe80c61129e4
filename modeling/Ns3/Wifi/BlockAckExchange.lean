import Ns3.Foundation.Reachable
import Ns3.Wifi.OriginatorBlockAckAgreement
import Ns3.Wifi.RecipientBlockAckAgreement.Scoreboard

namespace Ns3

open SequenceSpace
open BlockAckWindow (Tracks)
open Transition (Reachable)

/-- An originator and a recipient that exchange data, block ack requests and block acks. MPDUs are
numbered without wrap, and `start` and `win_start_r` are the two window starts counted so.
`transmitted` and `bars` are the data frames and requests sent so far: each may be lost, or be
received at any later time and more than once. -/
structure BlockAckExchange where
  originator : OriginatorBlockAckAgreement
  recipient : RecipientBlockAckAgreement ℕ
  next : ℕ
  start : ℕ
  win_start_r : ℕ
  in_flight : List ℕ := []
  transmitted : List ℕ := []
  bars : List ℕ := []
  received : List ℕ := []
  acked : List ℕ := []
  discarded : List ℕ := []
deriving DecidableEq

namespace BlockAckExchange

def initial (start size : ℕ) : BlockAckExchange where
  originator := { starting_seq := start, buffer_size := size : OriginatorBlockAckAgreement }.init_tx_window
  recipient := .create size start
  next := start
  start := start
  win_start_r := start

def mpdu (n : ℕ) : WifiMpdu ℕ where
  sequence_number := n % SEQNO_SPACE_SIZE
  packet := n
  sequence_number_lt := Nat.mod_lt _ (by decide)

inductive Event
  /-- The next MPDUs get their sequence numbers. -/
  | assign (count : ℕ)
  | transmit (n : ℕ)
  | receive (n : ℕ)
  /-- MPDUs in flight are no longer waited for. -/
  | give_up (stays : ℕ → Bool)
  | discard (n : ℕ)
  | send_bar
  | receive_bar (n : ℕ)
  /-- The recipient fills a header, and the originator receives it at once. -/
  | block_ack (header : CtrlBAckResponseHeader) (index : ℕ)

/-- The loop of `NotifyGotBlockAck` over the MPDUs in flight, with those that are marked. -/
def acknowledge (received : ℕ → Option Bool) :
    OriginatorBlockAckAgreement → List ℕ → Option (OriginatorBlockAckAgreement × List ℕ)
  | a, [] => some (a, [])
  | a, n :: ns => do
    if ← received (n % SEQNO_SPACE_SIZE) then
      let a ← a.notify_acked_mpdu (n % SEQNO_SPACE_SIZE)
      let (a, acked) ← acknowledge received a ns
      return (a, n :: acked)
    else acknowledge received a ns

/-- The MPDUs in flight that are not old for the originator. -/
def not_old (a : OriginatorBlockAckAgreement) (in_flight : List ℕ) : List ℕ :=
  in_flight.filter fun n =>
    distance SEQNO_SPACE_SIZE (n % SEQNO_SPACE_SIZE) a.tx_window.win_start < SEQNO_SPACE_HALF_SIZE

/-- The exchange with a new state of the originator. -/
def with_originator (e : BlockAckExchange) (a : OriginatorBlockAckAgreement) (in_flight : List ℕ) :
    BlockAckExchange :=
  { e with
    originator := a
    start := position SEQNO_SPACE_SIZE e.start a.tx_window.win_start
    in_flight }

def with_recipient (e : BlockAckExchange) (r : RecipientBlockAckAgreement ℕ) : BlockAckExchange :=
  { e with
    recipient := r
    win_start_r := position SEQNO_SPACE_SIZE e.win_start_r r.scoreboard.win_start }

/-- The buffer size, of the transmit window. -/
def size (e : BlockAckExchange) : ℕ := e.originator.tx_window.get_win_size

/-- Discarding an MPDU. The position its number stands for is recorded if it is not old. -/
def discard (e : BlockAckExchange) (n : ℕ) : Option BlockAckExchange := do
  let a ← e.originator.notify_discarded_mpdu (n % SEQNO_SPACE_SIZE)
  let x := position SEQNO_SPACE_SIZE e.start (n % SEQNO_SPACE_SIZE)
  return { e.with_originator a (not_old a e.in_flight) with
    discarded := if x < e.start + SEQNO_SPACE_HALF_SIZE then x :: e.discarded else e.discarded }

/-- A block ack that the recipient fills and the originator receives. A header of the context in which
all MPDUs are acknowledged is not filled. -/
def block_ack (e : BlockAckExchange) (header : CtrlBAckResponseHeader) (index : ℕ) :
    Option BlockAckExchange := do
  let info ← header.info index
  if header.is_all_ack info then none
  let header ← e.recipient.fill_block_ack_bitmap header index
  let (a, acked) ← acknowledge (header.is_packet_received index) e.originator e.in_flight
  return { e.with_originator a (not_old a (e.in_flight.filter (· ∉ acked))) with acked := acked ++ e.acked }

def step (e : BlockAckExchange) : Event → Option BlockAckExchange
  | .assign count => some { e with next := e.next + count }
  | .transmit n => do
    if e.start ≤ n ∧ n < e.start + e.size ∧ n < e.next then
      let a ← e.originator.notify_transmitted_mpdu (n % SEQNO_SPACE_SIZE)
      return { e.with_originator a (n :: e.in_flight) with transmitted := n :: e.transmitted }
    else none
  | .receive n => do
    if n ∈ e.transmitted then
      let r ← e.recipient.notify_received_mpdu (mpdu n)
      return { e.with_recipient r with received := n :: e.received }
    else none
  | .give_up stays => some { e with in_flight := e.in_flight.filter stays }
  | .discard n => if n < e.next then e.discard n else none
  | .send_bar => some { e with bars := e.start :: e.bars }
  | .receive_bar n => do
    if n ∈ e.bars then
      let r ← e.recipient.notify_received_bar (n % SEQNO_SPACE_SIZE)
      return e.with_recipient r
    else none
  | .block_ack header index => e.block_ack header index

/-- The originator's next number stays less than half the space minus the buffer size ahead of the
recipient's window start, and a frame is received before it is half the space behind it. -/
def Admitted (e : BlockAckExchange) : Event → Prop
  | .assign count => e.next + count + e.size < e.win_start_r + SEQNO_SPACE_HALF_SIZE
  | .receive n | .receive_bar n => e.win_start_r ≤ n + SEQNO_SPACE_HALF_SIZE
  | _ => True

instance (e : BlockAckExchange) (event : Event) : Decidable (Admitted e event) :=
  match event with
  | .assign _ => inferInstanceAs (Decidable (_ < _))
  | .receive _ | .receive_bar _ => inferInstanceAs (Decidable (_ ≤ _))
  | .transmit _ | .give_up _ | .discard _ | .send_bar | .block_ack _ _ => inferInstanceAs (Decidable True)

/-- The initial states that the limit on the next number allows. -/
def Initial (start size : ℕ) (e : BlockAckExchange) : Prop :=
  e = initial start size ∧ size < SEQNO_SPACE_HALF_SIZE

/-- What an exchange that started with an MPDU keeps. -/
structure Sound (e : BlockAckExchange) (first size : ℕ) : Prop where
  size_lt : size < SEQNO_SPACE_HALF_SIZE
  originator : Tracks e.originator.tx_window size e.start (· ∈ e.received)
  recipient : Tracks e.recipient.scoreboard size e.win_start_r (· ∈ e.received)
  behind : e.win_start_r ≤ e.start
  limit : e.next + size < e.win_start_r + SEQNO_SPACE_HALF_SIZE
  in_flight : ∀ n ∈ e.in_flight, e.start ≤ n ∧ n < e.start + size ∧ n < e.next
  transmitted : ∀ n ∈ e.transmitted, 0 < size ∧ n < e.start + size ∧ n < e.next
  bars : ∀ n ∈ e.bars, n ≤ e.start
  acked : ∀ n ∈ e.acked, n ∈ e.received
  passed : ∀ p, first ≤ p → p < e.start → p ∈ e.received ∨ ∃ q ∈ e.discarded, p ≤ q

variable {e e' : BlockAckExchange} {first size start start' n : ℕ} {a a' : OriginatorBlockAckAgreement}

theorem start_with_originator {P : ℕ → Prop} (htracks : Tracks a'.tx_window size start' P) (hle : e.start ≤ start')
    (hlt : start' < e.start + SEQNO_SPACE_SIZE) :
    position SEQNO_SPACE_SIZE e.start a'.tx_window.win_start = start' := by
  rw [htracks.start_eq, position_of_mod hle hlt]

theorem mem_not_old {P : ℕ → Prop} {l : List ℕ} (htracks : Tracks a'.tx_window size start' P)
    (hn : n ∈ not_old a' l) (hnear : start' ≤ n + SEQNO_SPACE_HALF_SIZE) : n ∈ l ∧ start' ≤ n := by
  have hhalf : SEQNO_SPACE_HALF_SIZE + SEQNO_SPACE_HALF_SIZE = SEQNO_SPACE_SIZE := by decide
  obtain ⟨hl, hdist⟩ := List.mem_filter.mp hn
  refine ⟨hl, ?_⟩
  by_contra hold
  rw [htracks.start_eq, distance_mod_behind (by omega) (by omega), decide_eq_true_eq] at hdist
  omega

theorem Sound.with_originator (h : e.Sound first size) (htracks : Tracks a'.tx_window size start' (· ∈ e.received))
    (hle : e.start ≤ start') (hlt : start' ≤ e.start + SEQNO_SPACE_HALF_SIZE) {l acked discarded : List ℕ}
    (hl : ∀ n ∈ l, n ∈ e.in_flight) (hacked : ∀ n ∈ acked, n ∈ e.received)
    (hdiscarded : ∀ q ∈ e.discarded, q ∈ discarded)
    (hpassed : ∀ p, e.start ≤ p → p < start' → p ∈ e.received ∨ ∃ q ∈ discarded, p ≤ q) :
    Sound { e.with_originator a' (not_old a' l) with
      acked
      discarded } first size := by
  have hhalf : SEQNO_SPACE_HALF_SIZE < SEQNO_SPACE_SIZE := by decide
  have hstart := start_with_originator htracks hle (by omega)
  refine ⟨h.size_lt, ?_, h.recipient, ?_, h.limit, fun n hn => ?_, fun n hn => ?_, fun n hn => ?_, hacked,
    fun p hfirst hp => ?_⟩
  all_goals simp only [BlockAckExchange.with_originator, hstart] at *
  · exact htracks
  · exact h.behind.trans hle
  · have hin := h.in_flight n (hl n (List.mem_filter.mp hn).1)
    have hahead := (mem_not_old htracks hn (by omega)).2
    exact ⟨hahead, by omega, hin.2.2⟩
  · have := h.transmitted n hn
    omega
  · exact (h.bars n hn).trans hle
  · by_cases hp' : p < e.start
    · exact (h.passed p hfirst hp').imp_right fun ⟨q, hq, hpq⟩ => ⟨q, hdiscarded q hq, hpq⟩
    · exact hpassed p (by omega) hp

theorem Sound.with_recipient (h : e.Sound first size) {r : RecipientBlockAckAgreement ℕ} {received : List ℕ}
    (hreceived : ∀ n ∈ e.received, n ∈ received) (htracks : Tracks r.scoreboard size start' (· ∈ received))
    (hle : e.win_start_r ≤ start') (hlt : start' < e.win_start_r + SEQNO_SPACE_SIZE) (hbehind : start' ≤ e.start) :
    Sound { e.with_recipient r with received } first size := by
  have hstart : position SEQNO_SPACE_SIZE e.win_start_r r.scoreboard.win_start = start' := by
    rw [htracks.start_eq, position_of_mod hle hlt]
  have hlimit := h.limit
  refine ⟨h.size_lt, h.originator.mono hreceived, ?_, ?_, ?_, h.in_flight, h.transmitted, h.bars,
    fun n hn => hreceived n (h.acked n hn), fun p hfirst hp => (h.passed p hfirst hp).imp_left (hreceived p)⟩
  all_goals simp only [BlockAckExchange.with_recipient, hstart]
  · exact htracks
  · exact hbehind
  · omega

theorem acknowledge_spec {received : ℕ → Option Bool} {P : ℕ → Prop} {ns acked : List ℕ} {bound : ℕ}
    (hsize : size ≤ SEQNO_SPACE_HALF_SIZE) (htracks : Tracks a.tx_window size start fun p => P p ∧ p < bound)
    (hbound : bound ≤ start + size) (hstart : start ≤ bound)
    (hns : ∀ n ∈ ns, n < bound ∧ bound ≤ n + SEQNO_SPACE_HALF_SIZE)
    (hreceived : ∀ n ∈ ns, received (n % SEQNO_SPACE_SIZE) = some true → P n)
    (hrun : acknowledge received a ns = some (a', acked)) :
    ∃ start', Tracks a'.tx_window size start' (fun p => P p ∧ p < bound) ∧ start ≤ start' ∧ start' ≤ bound ∧
      (∀ p, start ≤ p → p < start' → P p) ∧ ∀ n ∈ acked, P n := by
  have hhalf : SEQNO_SPACE_HALF_SIZE + SEQNO_SPACE_HALF_SIZE = SEQNO_SPACE_SIZE := by decide
  induction ns generalizing a start acked with
  | nil =>
    cases hrun
    exact ⟨start, htracks, le_rfl, hstart, fun p hp hlt => by omega, by simp⟩
  | cons n ns ih =>
    rw [acknowledge] at hrun
    obtain ⟨b, hb, hrun⟩ := Option.bind_eq_some_iff.mp hrun
    cases b with
    | false =>
      exact ih htracks hbound hstart (fun m hm => hns m (by simp [hm])) (fun m hm => hreceived m (by simp [hm])) hrun
    | true =>
      obtain ⟨a₁, hack, hrun⟩ := Option.bind_eq_some_iff.mp hrun
      obtain ⟨⟨a₂, acked₂⟩, hrest, hrun⟩ := Option.bind_eq_some_iff.mp hrun
      cases hrun
      obtain ⟨hlt, hnear⟩ := hns n (by simp)
      have hP := hreceived n (by simp) hb
      obtain ⟨start₁, htracks₁, hle₁, hbound₁, hpassed₁⟩ : ∃ start₁,
          Tracks a₁.tx_window size start₁ (fun p => P p ∧ p < bound) ∧ start ≤ start₁ ∧ start₁ ≤ bound ∧
            ∀ p, start ≤ p → p < start₁ → P p := by
        by_cases hold : start ≤ n
        · obtain ⟨a'', start₁, heq, hmoved, -⟩ := OriginatorBlockAckAgreement.notify_acked_spec htracks hsize hold
            (by omega) ⟨hP, hlt⟩
          cases hack.symm.trans heq
          have hle := hmoved.le
          refine ⟨start₁, hmoved.tracks, hle, ?_, fun p hp hp' => (hmoved.passed p hp hp').1⟩
          by_contra hgt
          have := (hmoved.passed (start₁ - 1) (by omega) (by omega)).2
          omega
        · -- the MPDU was passed while others before it in the list were marked
          have hnold := (OriginatorBlockAckAgreement.notify_old (x := n + SEQNO_SPACE_SIZE) htracks (by omega)
            (by omega)).2.1
          rw [Nat.add_mod_right] at hnold
          cases hack.symm.trans hnold
          exact ⟨start, htracks, le_rfl, hstart, fun p hp hp' => by omega⟩
      obtain ⟨start', htracks', hle', hbound', hpassed', hacked⟩ := ih htracks₁ (by omega) hbound₁
        (fun m hm => hns m (by simp [hm])) (fun m hm => hreceived m (by simp [hm])) hrest
      refine ⟨start', htracks', hle₁.trans hle', hbound', fun p hp hp' => ?_, fun m hm => ?_⟩
      · by_cases hfirst : p < start₁
        · exact hpassed₁ p hp hfirst
        · exact hpassed' p (by omega) hp'
      · rcases List.mem_cons.mp hm with rfl | hm
        · exact hP
        · exact hacked m hm

open RecipientBlockAckAgreement (mark_received_spec mark_received_old move_start_spec move_start_old
  notify_received_mpdu_scoreboard notify_received_bar_scoreboard fill_block_ack_bitmap_spec)

theorem Sound.receive (h : e.Sound first size) (hsent : n ∈ e.transmitted)
    (hnear : e.win_start_r ≤ n + SEQNO_SPACE_HALF_SIZE) {r : RecipientBlockAckAgreement ℕ}
    (hrun : e.recipient.notify_received_mpdu (mpdu n) = some r) :
    Sound { e.with_recipient r with received := n :: e.received } first size := by
  have hhalf : SEQNO_SPACE_HALF_SIZE + SEQNO_SPACE_HALF_SIZE = SEQNO_SPACE_SIZE := by decide
  have hmark : RecipientBlockAckAgreement.mark_received e.recipient.scoreboard (n % SEQNO_SPACE_SIZE)
      = some r.scoreboard := notify_received_mpdu_scoreboard hrun
  have hrecipient := h.recipient.mono (Q := (· ∈ n :: e.received)) fun p hp => List.mem_cons_of_mem n hp
  obtain ⟨hsize, hwindow, hnext⟩ := h.transmitted n hsent
  have hlimit := h.limit
  have hbehind := h.behind
  have hmem : ∀ m ∈ e.received, m ∈ n :: e.received := fun m hm => List.mem_cons_of_mem n hm
  by_cases hold : e.win_start_r ≤ n
  · obtain ⟨w, start', heq, htracks, hle, hmoved⟩ :=
      mark_received_spec hrecipient hsize hold (by omega) (by simp : n ∈ n :: e.received)
    cases hmark.symm.trans heq
    exact h.with_recipient hmem htracks hle (by omega) (by omega)
  · have heq := mark_received_old (x := n + SEQNO_SPACE_SIZE) hrecipient h.size_lt.le (by omega) (by omega)
    rw [Nat.add_mod_right, hmark, Option.some.injEq] at heq
    rw [← heq] at hrecipient
    exact h.with_recipient hmem hrecipient le_rfl (by omega) hbehind

theorem Sound.receive_bar (h : e.Sound first size) (hsent : n ∈ e.bars)
    (hnear : e.win_start_r ≤ n + SEQNO_SPACE_HALF_SIZE) {r : RecipientBlockAckAgreement ℕ}
    (hrun : e.recipient.notify_received_bar (n % SEQNO_SPACE_SIZE) = some r) :
    (e.with_recipient r).Sound first size := by
  have hhalf : SEQNO_SPACE_HALF_SIZE + SEQNO_SPACE_HALF_SIZE = SEQNO_SPACE_SIZE := by decide
  have hmove := notify_received_bar_scoreboard hrun
  have hmod : n % SEQNO_SPACE_SIZE < SEQNO_SPACE_SIZE := Nat.mod_lt _ (by decide)
  have hle : e.win_start_r ≤ position SEQNO_SPACE_SIZE e.win_start_r (n % SEQNO_SPACE_SIZE) := le_position
  have hlt := position_lt (m := SEQNO_SPACE_SIZE) (b := e.win_start_r) (a := n % SEQNO_SPACE_SIZE) (by decide)
  have hbars := h.bars n hsent
  have hbehind := h.behind
  have hsize := h.size_lt
  rw [← position_mod (b := e.win_start_r) hmod] at hmove
  by_cases hahead : position SEQNO_SPACE_SIZE e.win_start_r (n % SEQNO_SPACE_SIZE)
      < e.win_start_r + SEQNO_SPACE_HALF_SIZE
  · obtain ⟨w, heq, htracks⟩ := move_start_spec h.recipient hle hahead
    cases hmove.symm.trans heq
    have hn : e.win_start_r ≤ n := by
      by_contra hold
      have hpos := position_of_mod (m := SEQNO_SPACE_SIZE) (b := e.win_start_r) (p := n + SEQNO_SPACE_SIZE)
        (by omega) (by omega)
      rw [Nat.add_mod_right] at hpos
      omega
    have hpos := position_le (m := SEQNO_SPACE_SIZE) hn (by decide)
    exact h.with_recipient (fun m hm => hm) htracks hle hlt (by omega)
  · have heq := move_start_old h.recipient hsize.le (by omega) hlt
    rw [hmove, Option.some.injEq] at heq
    have htracks := h.recipient
    rw [← heq] at htracks
    exact h.with_recipient (fun m hm => hm) htracks le_rfl (by omega) hbehind

theorem Sound.discard (h : e.Sound first size) (hrun : e.discard n = some e') :
    e'.Sound first size := by
  have hhalf : SEQNO_SPACE_HALF_SIZE + SEQNO_SPACE_HALF_SIZE = SEQNO_SPACE_SIZE := by decide
  have hmod : n % SEQNO_SPACE_SIZE < SEQNO_SPACE_SIZE := Nat.mod_lt _ (by decide)
  have hlt := position_lt (m := SEQNO_SPACE_SIZE) (b := e.start) (a := n % SEQNO_SPACE_SIZE) (by decide)
  obtain ⟨x, hx⟩ : ∃ x, position SEQNO_SPACE_SIZE e.start (n % SEQNO_SPACE_SIZE) = x := ⟨_, rfl⟩
  have hle : e.start ≤ x := hx ▸ le_position
  have hseq : n % SEQNO_SPACE_SIZE = x % SEQNO_SPACE_SIZE := by rw [← hx, position_mod hmod]
  have hsize' := h.size_lt
  rw [BlockAckExchange.discard, hx, hseq] at hrun
  obtain ⟨a', ha', hrun⟩ := Option.bind_eq_some_iff.mp hrun
  cases hrun
  by_cases hold : x < e.start + SEQNO_SPACE_HALF_SIZE
  · have hsize : 0 < size := by
      apply Nat.pos_of_ne_zero
      rintro rfl
      rw [OriginatorBlockAckAgreement.notify_discarded_empty h.originator hle hold] at ha'
      cases ha'
    obtain ⟨a'', start', heq, hmoved, hpast, hbound⟩ :=
      OriginatorBlockAckAgreement.notify_discarded_spec h.originator hsize hle hold
    cases ha'.symm.trans heq
    rw [if_pos hold]
    apply h.with_originator hmoved.tracks hmoved.le (by omega) (fun m hm => hm) h.acked
      (fun q hq => List.mem_cons_of_mem x hq)
    intro p hp hp'
    rcases hmoved.passed p hp hp' with hpx | hreceived
    · exact .inr ⟨x, by simp, hpx⟩
    · exact .inl hreceived
  · have hnold := (OriginatorBlockAckAgreement.notify_old h.originator (by omega) (by omega : x < _)).2.2
    cases ha'.symm.trans hnold
    rw [if_neg hold]
    exact h.with_originator h.originator le_rfl (by omega) (fun m hm => hm) h.acked (fun q hq => hq)
      (fun p hp hp' => by omega)

theorem Sound.block_ack (h : e.Sound first size) {header : CtrlBAckResponseHeader} {index : ℕ}
    (hrun : e.block_ack header index = some e') : e'.Sound first size := by
  have hhalf : SEQNO_SPACE_HALF_SIZE + SEQNO_SPACE_HALF_SIZE = SEQNO_SPACE_SIZE := by decide
  have hsize := h.size_lt
  have hlimit := h.limit
  have hbehind := h.behind
  rw [BlockAckExchange.block_ack] at hrun
  obtain ⟨info, hinfo, hrun⟩ := Option.bind_eq_some_iff.mp hrun
  split at hrun
  next => cases hrun
  next hall =>
    obtain ⟨filled, hfill, hrun⟩ := Option.bind_eq_some_iff.mp hrun
    obtain ⟨⟨a', acked⟩, hack, hrun⟩ := Option.bind_eq_some_iff.mp hrun
    cases hrun
    obtain ⟨info', hreports⟩ := fill_block_ack_bitmap_spec h.recipient (by omega) hinfo hfill
    rw [Bool.not_eq_true] at hall
    rw [hall] at hreports
    obtain ⟨start', htracks, hle, hbound, hpassed, hmarked⟩ :=
      acknowledge_spec hsize.le h.originator.bounded le_rfl (by omega)
        (fun m hm => by have := h.in_flight m hm; omega)
        (fun m hm hreceived => by
          have := h.in_flight m hm
          exact hreports.of_received (by omega) (by omega) hreceived) hack
    apply h.with_originator (htracks.mono fun p hp => hp.1) hle (by omega)
      (fun m hm => (List.mem_filter.mp hm).1) _ (fun q hq => hq) (fun p hp hp' => .inl (hpassed p hp hp'))
    intro m hm
    rcases List.mem_append.mp hm with hm | hm
    · exact hmarked m hm
    · exact h.acked m hm

theorem sound_initial (hstart : first < SEQNO_SPACE_SIZE) (h : Initial first size e) : e.Sound first size := by
  obtain ⟨rfl, hsize⟩ := h
  refine ⟨hsize, BlockAckWindow.tracks_init hstart, BlockAckWindow.tracks_init hstart, le_rfl, ?_, by simp [initial],
    by simp [initial], by simp [initial], by simp [initial], fun p hp hlt => ?_⟩
  · show first + size < first + SEQNO_SPACE_HALF_SIZE
    omega
  · exact absurd hlt (not_lt.mpr hp)

theorem Sound.step (h : e.Sound first size) {event : Event} (hadmitted : Admitted e event)
    (hstep : step e event = some e') : e'.Sound first size := by
  have hsize : e.size = size := OriginatorBlockAckAgreement.get_win_size_eq h.originator
  cases event with
  | assign count =>
    cases hstep
    have hlimit : e.next + count + e.size < e.win_start_r + SEQNO_SPACE_HALF_SIZE := hadmitted
    rw [hsize] at hlimit
    exact { h with
      limit := hlimit
      in_flight := fun n hn => by have := h.in_flight n hn; simp only; omega
      transmitted := fun n hn => by have := h.transmitted n hn; simp only; omega }
  | transmit n =>
    rw [BlockAckExchange.step] at hstep
    split_ifs at hstep with hguard
    rw [hsize] at hguard
    have hinside := OriginatorBlockAckAgreement.notify_transmitted_inside h.originator h.size_lt.le hguard.1
      hguard.2.1
    rw [hinside] at hstep
    cases hstep
    have hstart := start_with_originator h.originator le_rfl (Nat.lt_add_of_pos_right (by decide))
    refine ⟨h.size_lt, ?_, h.recipient, ?_, h.limit, fun m hm => ?_, fun m hm => ?_, fun m hm => ?_, h.acked, ?_⟩
    all_goals simp only [BlockAckExchange.with_originator, hstart] at *
    · exact h.originator
    · exact h.behind
    · rcases List.mem_cons.mp hm with rfl | hm
      · exact hguard
      · exact h.in_flight m hm
    · rcases List.mem_cons.mp hm with rfl | hm
      · exact ⟨by omega, hguard.2⟩
      · exact h.transmitted m hm
    · exact h.bars m hm
    · exact h.passed
  | receive n =>
    rw [BlockAckExchange.step] at hstep
    split_ifs at hstep with hsent
    obtain ⟨r, hr, hstep⟩ := Option.bind_eq_some_iff.mp hstep
    cases hstep
    exact h.receive hsent hadmitted hr
  | give_up stays =>
    cases hstep
    exact { h with in_flight := fun n hn => h.in_flight n (List.mem_filter.mp hn).1 }
  | discard n =>
    rw [BlockAckExchange.step] at hstep
    split_ifs at hstep
    exact h.discard hstep
  | send_bar =>
    cases hstep
    exact { h with
      bars := fun n hn => by
        rcases List.mem_cons.mp hn with rfl | hn
        · exact le_rfl
        · exact h.bars n hn }
  | receive_bar n =>
    rw [BlockAckExchange.step] at hstep
    split_ifs at hstep with hsent
    obtain ⟨r, hr, hstep⟩ := Option.bind_eq_some_iff.mp hstep
    cases hstep
    exact h.receive_bar hsent hadmitted hr
  | block_ack header index => exact h.block_ack hstep

/-- Every MPDU marked as acknowledged was received, and the originator's window passes only MPDUs that were
received or that are not after a discarded number. -/
theorem no_false_block_ack (first size : ℕ) (hfirst : first < SEQNO_SPACE_SIZE) (e : BlockAckExchange)
    (hreach : Reachable (Initial first size) step Admitted e) :
    (∀ n ∈ e.acked, n ∈ e.received) ∧
      ∀ p, first ≤ p → p < e.start → p ∈ e.received ∨ ∃ q ∈ e.discarded, p ≤ q := by
  have h : e.Sound first size := by
    apply hreach.invariant
    · exact fun e he => sound_initial hfirst he
    · exact fun e event e' h hadmitted hstep => h.step hadmitted hstep
  exact ⟨h.acked, h.passed⟩

namespace Sample

def header : CtrlBAckResponseHeader where
  variant := .compressed
  bitmap_len := [8]
  ba_info := [{ bitmap := List.replicate 8 0 }]

/-- Three MPDUs of which the second is lost, and a block ack for the others. -/
def events : List Event :=
  [.assign 3, .transmit 4095, .transmit 4096, .transmit 4097, .receive 4097, .receive 4095, .block_ack header 0]

end Sample

theorem no_false_block_ack_sample : ∃ e, Reachable (Initial 4095 64) step Admitted e ∧
    e.acked = [4097, 4095] ∧ e.start = 4096 ∧ (∀ n ∈ e.acked, n ∈ e.received) ∧
      ∀ p, 4095 ≤ p → p < e.start → p ∈ e.received ∨ ∃ q ∈ e.discarded, p ≤ q := by
  have hrun : (Transition.execute step Admitted (initial 4095 64) Sample.events).map
      (fun e => (e.acked, e.start)) = some ([4097, 4095], 4096) := by decide +kernel
  obtain ⟨e, he, hfacts⟩ := Option.map_eq_some_iff.mp hrun
  simp only [Prod.mk.injEq] at hfacts
  have hreach : Reachable (Initial 4095 64) step Admitted e := Reachable.execute (.init ⟨rfl, by decide⟩) he
  exact ⟨e, hreach, hfacts.1, hfacts.2, no_false_block_ack 4095 64 (by decide) e hreach⟩

/-- A discard moves the window past an older MPDU that was neither received nor discarded. -/
theorem discard_passes_older : ∃ e, Reachable (Initial 0 64) step Admitted e ∧
    0 < e.start ∧ 0 ∉ e.received ∧ 0 ∉ e.discarded := by
  have hrun : (Transition.execute step Admitted (initial 0 64)
      [.assign 2, .transmit 0, .transmit 1, .discard 1]).map
      (fun e => (e.start, e.received, e.discarded)) = some (2, [], [1]) := by decide +kernel
  obtain ⟨e, he, hfacts⟩ := Option.map_eq_some_iff.mp hrun
  simp only [Prod.mk.injEq] at hfacts
  obtain ⟨hstart, hreceived, hdiscarded⟩ := hfacts
  refine ⟨e, Reachable.execute (.init ⟨rfl, by decide⟩) he, ?_⟩
  rw [hstart, hreceived, hdiscarded]
  decide

end BlockAckExchange

end Ns3
