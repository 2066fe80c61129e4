import Ns3.Olsr.Step

namespace Ns3.Olsr

/-- The TTL and the retransmissions of a message add up to the TTL of its originator. -/
structure MessageHeader.Traced (msg : MessageHeader) : Prop where
  sum : msg.m_timeToLive.toNat + msg.retransmitters.length = msg.originated
  pos : msg.retransmitters ≠ [] → 0 < msg.m_timeToLive.toNat

/-- One message, under the numbers that identify it. -/
def MessageHeader.Same (msg msg' : MessageHeader) : Prop :=
  msg.m_originatorAddress = msg'.m_originatorAddress ∧
    msg.m_messageSequenceNumber = msg'.m_messageSequenceNumber

/-- The part of a node that flooding depends on and changes. -/
structure Ledger where
  duplicates : List DuplicateTuple
  history : List Effect
  mainAddress : Ipv4Address
  now : Time
  queued : List MessageHeader
  sent : List OlsrPacket
  initialized : Bool

namespace Ledger

def find (L : Ledger) (addr : Ipv4Address) (sequenceNumber : UInt16) : Option DuplicateTuple :=
  L.duplicates.find? fun t => t.address == addr && t.sequenceNumber == sequenceNumber

/-- An effect is over, or a duplicate tuple tells of it. -/
def Remembers (L : Ledger) (e : Effect) : Prop :=
  e.time + OLSR_DUP_HOLD_TIME < L.now ∨
    ∃ d, L.find e.message.m_originatorAddress e.message.m_messageSequenceNumber = some d ∧
      e.time + OLSR_DUP_HOLD_TIME ≤ d.expirationTime ∧ (e.kind = .queued → d.retransmitted = true)

/-- The message is one of the node, or one that it has queued for retransmission. -/
def Accounted (L : Ledger) (msg : MessageHeader) : Prop :=
  msg.m_originatorAddress = L.mainAddress ∨ ∃ e ∈ L.history, e.kind = .queued ∧ e.message = msg

/-- Two effects of one kind on one message lie more than the holding time apart. -/
def Apart (e e' : Effect) : Prop :=
  e.kind = e'.kind → e.message.Same e'.message → e.time + OLSR_DUP_HOLD_TIME < e'.time

structure Good (L : Ledger) : Prop where
  spaced : L.history.Pairwise Apart
  past : ∀ e ∈ L.history, e.time ≤ L.now
  remembered : ∀ e ∈ L.history, L.Remembers e
  foreign : ∀ e ∈ L.history, e.message.m_originatorAddress ≠ L.mainAddress
  bounded : ∀ e ∈ L.history, e.kind = .queued →
    e.message.retransmitters.length ≤ e.message.originated - 1
  queued_traced : ∀ m ∈ L.queued, m.Traced
  sent_traced : ∀ packet ∈ L.sent, ∀ m ∈ packet.messages, m.Traced
  queued_accounted : ∀ m ∈ L.queued, L.Accounted m
  sent_accounted : ∀ packet ∈ L.sent, ∀ m ∈ packet.messages, L.Accounted m

variable {L L' : Ledger}

theorem Accounted.mono {msg : MessageHeader} (h : L.Accounted msg)
    (hmain : L'.mainAddress = L.mainAddress) (hhistory : ∀ e ∈ L.history, e ∈ L'.history) :
    L'.Accounted msg := by
  rcases h with h | ⟨e, he, hk, hm⟩
  · exact .inl (h.trans hmain.symm)
  · exact .inr ⟨e, hhistory e he, hk, hm⟩

theorem Good.over (h : L.Good) {msg : MessageHeader} {e : Effect} (he : e ∈ L.history)
    (hsame : e.message.Same msg)
    (hdup : ∀ d, L.find msg.m_originatorAddress msg.m_messageSequenceNumber = some d →
      e.kind = .queued ∧ d.retransmitted = false) : e.time + OLSR_DUP_HOLD_TIME < L.now := by
  rcases h.remembered e he with hover | ⟨d, hfind, -, hret⟩
  · exact hover
  · rw [hsame.1, hsame.2] at hfind
    obtain ⟨hkind, hfalse⟩ := hdup d hfind
    rw [hret hkind] at hfalse
    cases hfalse

theorem Good.advance (h : L.Good) {t : Time} (ht : L.now ≤ t) : { L with now := t }.Good where
  spaced := h.spaced
  past e he := (h.past e he).trans ht
  remembered e he := by
    rcases h.remembered e he with hover | hfind
    · exact .inl (hover.trans_le ht)
    · exact .inr hfind
  foreign := h.foreign
  bounded := h.bounded
  queued_traced := h.queued_traced
  sent_traced := h.sent_traced
  queued_accounted := h.queued_accounted
  sent_accounted := h.sent_accounted

theorem Good.originate (h : L.Good) {msg : MessageHeader} (htraced : msg.Traced)
    (hmain : msg.m_originatorAddress = L.mainAddress) :
    { L with queued := L.queued ++ [msg] }.Good where
  spaced := h.spaced
  past := h.past
  remembered := h.remembered
  foreign := h.foreign
  bounded := h.bounded
  queued_traced m hm := by
    rcases List.mem_append.mp hm with hm | hm
    · exact h.queued_traced m hm
    · exact List.mem_singleton.mp hm ▸ htraced
  sent_traced := h.sent_traced
  queued_accounted m hm := by
    rcases List.mem_append.mp hm with hm | hm
    · exact h.queued_accounted m hm
    · exact .inl (List.mem_singleton.mp hm ▸ hmain)
  sent_accounted := h.sent_accounted

theorem Good.send (h : L.Good) {queued : List MessageHeader} {sent : List OlsrPacket}
    (hqueued : ∀ m ∈ queued, m ∈ L.queued)
    (hsent : ∀ packet ∈ sent, packet ∈ L.sent ∨ ∀ m ∈ packet.messages, m ∈ L.queued) :
    { L with queued := queued, sent := sent }.Good where
  spaced := h.spaced
  past := h.past
  remembered := h.remembered
  foreign := h.foreign
  bounded := h.bounded
  queued_traced m hm := h.queued_traced m (hqueued m hm)
  sent_traced packet hpacket m hm := by
    rcases hsent packet hpacket with hold | hnew
    · exact h.sent_traced packet hold m hm
    · exact h.queued_traced m (hnew m hm)
  queued_accounted m hm := h.queued_accounted m (hqueued m hm)
  sent_accounted packet hpacket m hm := by
    rcases hsent packet hpacket with hold | hnew
    · exact h.sent_accounted packet hold m hm
    · exact h.queued_accounted m (hnew m hm)

theorem Good.forget (h : L.Good) {addr : Ipv4Address} {sequenceNumber : UInt16} {d : DuplicateTuple}
    (hfind : L.find addr sequenceNumber = some d) (hover : d.expirationTime < L.now) :
    { L with duplicates := L.duplicates.eraseP fun t =>
        t.address == addr && t.sequenceNumber == sequenceNumber }.Good where
  spaced := h.spaced
  past := h.past
  remembered e he := by
    rcases h.remembered e he with hpast | ⟨d', hfind', hexp, hret⟩
    · exact .inl hpast
    by_cases hkey : e.message.m_originatorAddress = addr ∧
        e.message.m_messageSequenceNumber = sequenceNumber
    · rw [hkey.1, hkey.2, hfind] at hfind'
      cases hfind'
      exact .inl (hexp.trans_lt hover)
    · refine .inr ⟨d', ?_, hexp, hret⟩
      rw [← hfind']
      refine List.find?_eraseP_ne fun t ht ht' => hkey ?_
      simp only [Bool.and_eq_true, beq_iff_eq] at ht ht'
      exact ⟨ht'.1.symm.trans ht.1, ht'.2.symm.trans ht.2⟩
  foreign := h.foreign
  bounded := h.bounded
  queued_traced := h.queued_traced
  sent_traced := h.sent_traced
  queued_accounted := h.queued_accounted
  sent_accounted := h.sent_accounted

/-- The effects of a copy of a message, and its duplicate tuple afterwards. -/
structure Noted (L L' : Ledger) (msg : MessageHeader) (effects : List Effect)
    (d : DuplicateTuple) : Prop where
  now : L'.now = L.now
  mainAddress : L'.mainAddress = L.mainAddress
  history : L'.history = L.history ++ effects
  sent : L'.sent = L.sent
  initialized : L'.initialized = L.initialized
  queued : ∀ m ∈ L'.queued, m ∈ L.queued ∨ m.Traced ∧ ∃ e ∈ effects, e.kind = .queued ∧ e.message = m
  others : ∀ addr sequenceNumber,
    ¬ (addr = msg.m_originatorAddress ∧ sequenceNumber = msg.m_messageSequenceNumber) →
      L'.find addr sequenceNumber = L.find addr sequenceNumber
  found : L'.find msg.m_originatorAddress msg.m_messageSequenceNumber = some d
  expirationTime : d.expirationTime = L.now + OLSR_DUP_HOLD_TIME
  retransmitted : (∃ e ∈ effects, e.kind = .queued) → d.retransmitted = true
  /-- What is forgotten about retransmissions is over. -/
  forgotten : d.retransmitted = false → ∀ e ∈ L.history, e.kind = .queued → e.message.Same msg →
    e.time + OLSR_DUP_HOLD_TIME < L.now
  fresh : ∀ e ∈ effects, e.time = L.now ∧ e.message.Same msg ∧
    (e.kind = .queued → e.message.retransmitters.length ≤ e.message.originated - 1) ∧
      ∀ e' ∈ L.history, e'.kind = e.kind → e'.message.Same msg → e'.time + OLSR_DUP_HOLD_TIME < L.now
  distinct : effects.Pairwise fun e e' => e.kind ≠ e'.kind

theorem Good.note (h : L.Good) {msg : MessageHeader} {effects : List Effect} {d : DuplicateTuple}
    (hforeign : msg.m_originatorAddress ≠ L.mainAddress) (hn : Noted L L' msg effects d) : L'.Good := by
  have hmem : ∀ e, e ∈ L'.history ↔ e ∈ L.history ∨ e ∈ effects := by
    intro e
    rw [hn.history, List.mem_append]
  have hmono : ∀ e ∈ L.history, e ∈ L'.history := fun e he => (hmem e).mpr (.inl he)
  constructor
  case spaced =>
    rw [hn.history, List.pairwise_append]
    refine ⟨h.spaced, hn.distinct.imp fun hne hkind => absurd hkind hne, ?_⟩
    intro e he e' he' hkind hsame
    obtain ⟨htime, hsame', -, hover⟩ := hn.fresh e' he'
    rw [htime]
    exact hover e he hkind ⟨hsame.1.trans hsame'.1, hsame.2.trans hsame'.2⟩
  case past =>
    intro e he
    rw [hn.now]
    rcases (hmem e).mp he with he | he
    · exact h.past e he
    · exact (hn.fresh e he).1.le
  case remembered =>
    intro e he
    by_cases hsame : e.message.Same msg
    · have hfound : L'.find e.message.m_originatorAddress e.message.m_messageSequenceNumber = some d := by
        rw [hsame.1, hsame.2, hn.found]
      have htime : e.time ≤ L.now :=
        ((hmem e).mp he).elim (h.past e) fun he => (hn.fresh e he).1.le
      have hexp : e.time + OLSR_DUP_HOLD_TIME ≤ d.expirationTime := by
        rw [hn.expirationTime]
        exact Int.add_le_add_right htime _
      by_cases hret : e.kind = .queued → d.retransmitted = true
      · exact .inr ⟨d, hfound, hexp, hret⟩
      · obtain ⟨hkind, hfalse⟩ := Classical.not_imp.mp hret
        left
        rw [hn.now]
        rcases (hmem e).mp he with he | he
        · exact hn.forgotten (Bool.eq_false_iff.mpr hfalse) e he hkind hsame
        · exact absurd (hn.retransmitted ⟨e, he, hkind⟩) hfalse
    · rcases (hmem e).mp he with he | he
      · rw [Remembers, hn.now, hn.others _ _ hsame]
        exact h.remembered e he
      · exact absurd (hn.fresh e he).2.1 hsame
  case foreign =>
    intro e he
    rw [hn.mainAddress]
    rcases (hmem e).mp he with he | he
    · exact h.foreign e he
    · rw [(hn.fresh e he).2.1.1]
      exact hforeign
  case bounded =>
    intro e he
    rcases (hmem e).mp he with he | he
    · exact h.bounded e he
    · exact (hn.fresh e he).2.2.1
  case queued_traced =>
    intro m hm
    rcases hn.queued m hm with hm | hm
    · exact h.queued_traced m hm
    · exact hm.1
  case sent_traced =>
    rw [hn.sent]
    exact h.sent_traced
  case queued_accounted =>
    intro m hm
    rcases hn.queued m hm with hm | ⟨-, e, he, hk⟩
    · exact (h.queued_accounted m hm).mono hn.mainAddress hmono
    · exact .inr ⟨e, (hmem e).mpr (.inr he), hk⟩
  case sent_accounted =>
    rw [hn.sent]
    exact fun packet hpacket m hm => (h.sent_accounted packet hpacket m hm).mono hn.mainAddress hmono

end Ledger

end Ns3.Olsr
