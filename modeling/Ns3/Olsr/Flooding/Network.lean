import Ns3.Foundation.Reachable
import Ns3.Olsr.Flooding.Receive

namespace Ns3.Olsr

/-- Nodes, and packets of originators that are not among them. A packet that has been sent may
reach any interface, any number of times, or none. -/
structure OlsrNetwork (ι : Type) where
  node : ι → Node
  foreign : List OlsrPacket

namespace OlsrNetwork

variable {ι : Type} [DecidableEq ι]

inductive Event (ι : Type)
  | node (i : ι) (event : Node.Event)
  | advance (time : Time)
  | originate (packet : OlsrPacket)

def step (w : OlsrNetwork ι) : Event ι → Option (OlsrNetwork ι)
  | .node i event => ((w.node i).step event).map fun n => { w with node := Function.update w.node i n }
  | .advance time =>
    some { w with node := fun i => ((w.node i).step (.advance time)).getD (w.node i) }
  | .originate packet => some { w with foreign := w.foreign ++ [packet] }

/-- A packet that some node or some other originator has sent. -/
def InAir (w : OlsrNetwork ι) (packet : OlsrPacket) : Prop :=
  packet ∈ w.foreign ∨ ∃ i, packet ∈ (w.node i).sent

/-- Only packets that have been sent arrive, time is the same everywhere, and a message starts
without retransmissions. -/
def Admits (w : OlsrNetwork ι) : Event ι → Prop
  | .node _ (.recv_olsr _ packet) => w.InAir packet
  | .node _ (.advance _) => False
  | .node _ _ => True
  | .advance time => ∀ i, ((w.node i).step (.advance time)).isSome
  | .originate packet =>
    ∀ m ∈ packet.messages, m.originated = m.m_timeToLive.toNat ∧ m.retransmitters = []

/-- Nodes before their start, at one time. -/
structure Initial (w : OlsrNetwork ι) : Prop where
  node : ∀ i, (w.node i).Initial
  now : ∃ t, ∀ i, (w.node i).now = t
  foreign : w.foreign = []

abbrev Reachable (w : OlsrNetwork ι) : Prop := Transition.Reachable Initial step Admits w

end OlsrNetwork

namespace Node

variable {n n' : Node}

/-- A node is in order, and has done nothing before its start. -/
structure Invariant (n : Node) : Prop where
  good : n.ledger.Good
  pending : n.initialized = false → n.simulator.pending = []
  sockets : n.initialized = false → n.m_sendSockets = []
  history : n.initialized = false → n.history = []
  queued : n.initialized = false → n.m_queuedMessages = []
  sent : n.initialized = false → n.sent = []

theorem Sound.invariant (h : n.Sound) : n.Invariant := by
  have hne : ¬ n.initialized = false := by simp [h.2]
  exact ⟨h.1, fun h => absurd h hne, fun h => absurd h hne, fun h => absurd h hne,
    fun h => absurd h hne, fun h => absurd h hne⟩

theorem Initial.invariant (h : n.Initial) : n.Invariant where
  good := by
    have hhistory : n.ledger.history = [] := h.history
    have hqueued : n.ledger.queued = [] := h.m_queuedMessages
    have hsent : n.ledger.sent = [] := h.sent
    constructor <;> simp [hhistory, hqueued, hsent]
  pending _ := h.pending
  sockets _ := h.m_sendSockets
  history _ := h.history
  queued _ := h.m_queuedMessages
  sent _ := h.sent

theorem sound_start_interface (hn : n.Sound) {x : Ipv4Address × ℕ}
    (h : n.start_interface x = some n') : n'.Sound := by
  unfold start_interface at h
  split at h
  · exact Option.some.inj h ▸ hn
  · obtain ⟨n₁, h₁, rfl⟩ := Option.map_eq_some_iff.mp h
    have hn₁ : n₁.Sound := by
      unfold associate_interface at h₁
      split at h₁
      · exact Option.some.inj h₁ ▸ hn
      · dsimp only at h₁
        split at h₁
        · exact Option.some.inj h₁ ▸ hn.congr (ledger_set_state rfl)
        · cases h₁
    split
    · exact hn₁
    · exact hn₁.congr rfl

theorem sound_start_interfaces (l : List (Ipv4Address × ℕ)) (hn : n.Sound)
    (h : l.foldlM start_interface n = some n') : n'.Sound := by
  induction l generalizing n with
  | nil =>
    cases h
    exact hn
  | cons x l ih =>
    rw [List.foldlM_cons] at h
    obtain ⟨n₁, h₁, h⟩ := Option.bind_eq_some_iff.mp h
    exact ih (sound_start_interface hn h₁) h

theorem sound_start_timers (hn : n.Sound) (h : n.start_timers = some n') : n'.Sound := by
  obtain ⟨n₁, h₁, h⟩ := Option.bind_eq_some_iff.mp h
  obtain ⟨n₂, h₂, h⟩ := Option.bind_eq_some_iff.mp h
  obtain ⟨n₃, h₃, h⟩ := Option.bind_eq_some_iff.mp h
  have hn₁ := sound_hello_timer_expire hn h₁
  have hn₂ := sound_tc_timer_expire hn₁ h₂
  exact sound_hna_timer_expire (sound_mid_timer_expire hn₂ h₃) h

theorem sound_initialized (hn : n.Invariant) (h : n.do_initialize = some n') : n'.Sound := by
  unfold do_initialize at h
  split at h
  · cases h
  next hinit =>
    rw [Bool.not_eq_true] at hinit
    obtain ⟨addresses, -, h⟩ := Option.bind_eq_some_iff.mp h
    obtain ⟨mainAddress, -, h⟩ := Option.bind_eq_some_iff.mp h
    obtain ⟨n₁, h₁, h⟩ := Option.bind_eq_some_iff.mp h
    have hstarted : Sound { n with m_mainAddress := mainAddress, initialized := true } := by
      refine ⟨?_, rfl⟩
      have hhistory := hn.history hinit
      have hqueued := hn.queued hinit
      have hsent := hn.sent hinit
      constructor <;> simp [ledger, hhistory, hqueued, hsent]
    have hn₁ := sound_start_interfaces _ hstarted h₁
    split at h
    · exact Option.some.inj h ▸ hn₁
    · exact sound_start_timers hn₁ h

theorem Invariant.congr (hn : n.Invariant) (hledger : n'.ledger = n.ledger)
    (hpending : n'.simulator.pending = n.simulator.pending)
    (hsockets : n'.m_sendSockets = n.m_sendSockets) : n'.Invariant := by
  have hinit : n'.initialized = n.initialized := congrArg Ledger.initialized hledger
  refine ⟨hledger ▸ hn.good, ?_, ?_, ?_, ?_, ?_⟩
  · exact fun h => hpending.trans (hn.pending (hinit ▸ h))
  · exact fun h => hsockets.trans (hn.sockets (hinit ▸ h))
  · exact fun h => (congrArg Ledger.history hledger).trans (hn.history (hinit ▸ h))
  · exact fun h => (congrArg Ledger.queued hledger).trans (hn.queued (hinit ▸ h))
  · exact fun h => (congrArg Ledger.sent hledger).trans (hn.sent (hinit ▸ h))

theorem Invariant.sound (hn : n.Invariant) (hinit : n.initialized ≠ false) : n.Sound :=
  ⟨hn.good, by simpa using hinit⟩

theorem invariant_advance (hn : n.Invariant) {time : Time} (h : n.step (.advance time) = some n') :
    n'.Invariant := by
  obtain ⟨simulator, hadvance, rfl⟩ := Option.map_eq_some_iff.mp h
  have hle : n.now ≤ time := by
    unfold Agenda.advance at hadvance
    split at hadvance
    next hok => exact hok.1
    next => cases hadvance
  obtain rfl := Agenda.advance_some hadvance
  exact ⟨hn.good.advance hle, hn.pending, hn.sockets, hn.history, hn.queued, hn.sent⟩

/-- A step of a node, where the messages that arrive are in order. -/
theorem invariant_step (hn : n.Invariant) {event : Event}
    (htraced : ∀ i packet, event = .recv_olsr i packet → ∀ m ∈ packet.messages, m.Traced)
    (h : n.step event = some n') : n'.Invariant := by
  cases event with
  | start => exact (sound_initialized hn h).invariant
  | recv_olsr recvInterfaceIndex packet =>
    have hinit : n.initialized ≠ false := by
      intro hinit
      simp [step, recv_olsr, hn.sockets hinit] at h
    exact (sound_recv_olsr (hn.sound hinit) (htraced _ _ rfl) h).invariant
  | expire uid =>
    obtain ⟨⟨call, simulator⟩, htake, h⟩ := Option.bind_eq_some_iff.mp h
    obtain ⟨e, he, -, -, -, rfl⟩ := Agenda.take_some htake
    have hinit : n.initialized ≠ false := by
      intro hinit
      rw [hn.pending hinit] at he
      cases he
    have hn' : Sound { n with simulator := n.simulator.cancel (some uid) } := (hn.sound hinit).congr rfl
    exact (sound_expire hn' call h).invariant
  | advance time => exact invariant_advance hn h
  | add_host_network_association association =>
    refine Option.some.inj h ▸ hn.congr ?_ ?_ ?_ <;>
    · unfold add_host_network_association
      split <;> rfl
  | remove_host_network_association association =>
    exact Option.some.inj h ▸ hn.congr rfl rfl rfl

end Node

namespace OlsrNetwork

variable {ι : Type} [DecidableEq ι] {w w' : OlsrNetwork ι}

structure Invariant (w : OlsrNetwork ι) : Prop where
  node : ∀ i, (w.node i).Invariant
  foreign : ∀ packet ∈ w.foreign, ∀ m ∈ packet.messages, m.Traced

omit [DecidableEq ι] in
theorem Invariant.traced (hw : w.Invariant) {packet : OlsrPacket} (h : w.InAir packet) :
    ∀ m ∈ packet.messages, m.Traced := by
  rcases h with h | ⟨i, h⟩
  · exact hw.foreign packet h
  · exact (hw.node i).good.sent_traced packet h

theorem Invariant.step (hw : w.Invariant) {event : Event ι} (hadmits : w.Admits event)
    (h : w.step event = some w') : w'.Invariant := by
  cases event with
  | node i event =>
    obtain ⟨n, hn, rfl⟩ := Option.map_eq_some_iff.mp h
    refine ⟨fun j => ?_, hw.foreign⟩
    rcases eq_or_ne j i with rfl | hne
    · have hself : Function.update w.node j n j = n := Function.update_self ..
      change (Function.update w.node j n j).Invariant
      rw [hself]
      refine Node.invariant_step (hw.node j) (fun k packet heq => ?_) hn
      subst heq
      exact hw.traced hadmits
    · have hother : Function.update w.node i n j = w.node j := Function.update_of_ne hne ..
      change (Function.update w.node i n j).Invariant
      rw [hother]
      exact hw.node j
  | advance time =>
    rw [← Option.some.inj h]
    refine ⟨fun i => ?_, hw.foreign⟩
    obtain ⟨n, hn⟩ := Option.isSome_iff_exists.mp (hadmits i)
    simp only [hn, Option.getD_some]
    exact Node.invariant_advance (hw.node i) hn
  | originate packet =>
    rw [← Option.some.inj h]
    refine ⟨hw.node, fun p hp m hm => ?_⟩
    rcases List.mem_append.mp hp with hp | hp
    · exact hw.foreign p hp m hm
    · rw [List.mem_singleton.mp hp] at hm
      obtain ⟨horiginated, hnil⟩ := hadmits m hm
      exact ⟨by simp [hnil, horiginated], fun h => absurd hnil h⟩

theorem Reachable.invariant (h : Reachable w) : w.Invariant :=
  Transition.Reachable.invariant
    (fun _ hinit => ⟨fun i => (hinit.node i).invariant, by simp [hinit.foreign]⟩)
    (fun _ _ _ hw hadmits hstep => hw.step hadmits hstep) h

/-- The effects of a kind on one message, within the holding time from some instant on. -/
def effects (n : Node) (kind : EffectKind) (originator : Ipv4Address) (sequenceNumber : UInt16)
    (t : Time) : List Effect :=
  n.history.filter fun e => e.kind = kind ∧ e.message.m_originatorAddress = originator ∧
    e.message.m_messageSequenceNumber = sequenceNumber ∧ t ≤ e.time ∧
      e.time ≤ t + OLSR_DUP_HOLD_TIME

theorem length_effects_le {n : Node} (hn : n.ledger.Good) (kind : EffectKind)
    (originator : Ipv4Address) (sequenceNumber : UInt16) (t : Time) :
    (effects n kind originator sequenceNumber t).length ≤ 1 := by
  have hspaced : (effects n kind originator sequenceNumber t).Pairwise Ledger.Apart :=
    hn.spaced.filter _
  have hmem : ∀ e ∈ effects n kind originator sequenceNumber t, e.kind = kind ∧
      e.message.m_originatorAddress = originator ∧
        e.message.m_messageSequenceNumber = sequenceNumber ∧ t ≤ e.time ∧
          e.time ≤ t + OLSR_DUP_HOLD_TIME := by
    intro e he
    simpa using (List.mem_filter.mp he).2
  match hl : effects n kind originator sequenceNumber t with
  | [] => simp
  | [e] => simp
  | e :: e' :: rest =>
    rw [hl] at hspaced hmem
    obtain ⟨hk, ho, hs, ht, -⟩ := hmem e (by simp)
    obtain ⟨hk', ho', hs', -, ht'⟩ := hmem e' (by simp)
    have hapart := (List.pairwise_cons.mp hspaced).1 e' (by simp) (hk.trans hk'.symm)
      ⟨ho.trans ho'.symm, hs.trans hs'.symm⟩
    have hle : t + OLSR_DUP_HOLD_TIME ≤ e.time + OLSR_DUP_HOLD_TIME := Int.add_le_add_right ht _
    exact absurd (hle.trans_lt hapart) (not_lt.mpr ht')

/-- The theorem on flooding: within the holding time a message changes the state of a node once at
most and is queued for retransmission once at most; the messages of the node itself are neither
processed nor retransmitted; a message is retransmitted by fewer nodes in turn than its first TTL;
and what a node sends is its own or has been queued so. -/
theorem flooding_controlled (h : Reachable w) (i : ι) :
    (∀ kind originator sequenceNumber t,
      (effects (w.node i) kind originator sequenceNumber t).length ≤ 1) ∧
    (∀ e ∈ (w.node i).history, e.message.m_originatorAddress ≠ (w.node i).m_mainAddress) ∧
    (∀ e ∈ (w.node i).history, e.kind = .queued →
      e.message.retransmitters.length ≤ e.message.originated - 1) ∧
    ∀ packet ∈ (w.node i).sent, ∀ m ∈ packet.messages,
      m.m_originatorAddress = (w.node i).m_mainAddress ∨
        ∃ e ∈ (w.node i).history, e.kind = .queued ∧ e.message = m := by
  have hgood := ((Reachable.invariant h).node i).good
  exact ⟨length_effects_le hgood, hgood.foreign, hgood.bounded, hgood.sent_accounted⟩

section Relay

/-! A node that its neighbour has chosen as a relay, and a TC message that comes from there. -/

instance (w : OlsrNetwork Unit) (packet : OlsrPacket) : Decidable (w.InAir packet) :=
  decidable_of_iff (packet ∈ w.foreign ∨ packet ∈ (w.node ()).sent)
    (or_congr_right ⟨fun h => ⟨(), h⟩, fun ⟨_, h⟩ => h⟩)

instance : ∀ (w : OlsrNetwork Unit) (event : Event Unit), Decidable (w.Admits event)
  | w, .node _ (.recv_olsr _ packet) => inferInstanceAs (Decidable (w.InAir packet))
  | _, .node _ (.advance _) => inferInstanceAs (Decidable False)
  | _, .node _ .start => inferInstanceAs (Decidable True)
  | _, .node _ (.expire _) => inferInstanceAs (Decidable True)
  | _, .node _ (.add_host_network_association _) => inferInstanceAs (Decidable True)
  | _, .node _ (.remove_host_network_association _) => inferInstanceAs (Decidable True)
  | w, .advance time =>
    decidable_of_iff ((w.node ()).step (.advance time)).isSome ⟨fun h _ => h, fun h => h ()⟩
  | _, .originate packet => inferInstanceAs (Decidable (∀ m ∈ packet.messages, _ ∧ _))

def relayNetwork : OlsrNetwork Unit where
  node _ := { m_mainAddress := Ipv4Address.uninitialized, m_ipv4 := [[10]] }
  foreign := []

def relayHello : OlsrPacket where
  source := 20
  messages := [⟨0x86, 20, 1, 0, 1, .hello ⟨0x05, Willingness.DEFAULT, [⟨9, [10]⟩]⟩, 1, []⟩]

def relayTc : OlsrPacket where
  source := 20
  messages := [⟨0x86, 30, 3, 0, 7, .tc ⟨[40], 1⟩, 3, []⟩]

def relayEvents : List (Event Unit) :=
  [.node () .start, .originate relayHello, .node () (.recv_olsr 0 relayHello), .originate relayTc,
    .node () (.recv_olsr 0 relayTc), .node () (.recv_olsr 0 relayTc)]

theorem relay_flooding_controlled : ∃ w : OlsrNetwork Unit,
    (w.node ()).history.map (·.kind) = [.processed, .queued] ∧
      ((∀ kind originator sequenceNumber t,
          (effects (w.node ()) kind originator sequenceNumber t).length ≤ 1) ∧
        (∀ e ∈ (w.node ()).history, e.message.m_originatorAddress ≠ (w.node ()).m_mainAddress) ∧
        (∀ e ∈ (w.node ()).history, e.kind = .queued →
          e.message.retransmitters.length ≤ e.message.originated - 1) ∧
        ∀ packet ∈ (w.node ()).sent, ∀ m ∈ packet.messages,
          m.m_originatorAddress = (w.node ()).m_mainAddress ∨
            ∃ e ∈ (w.node ()).history, e.kind = .queued ∧ e.message = m) := by
  have hinit : Initial relayNetwork :=
    ⟨fun _ => by constructor <;> rfl, ⟨0, fun _ => rfl⟩, rfl⟩
  have hrun : ((Transition.execute step Admits relayNetwork relayEvents).any fun w =>
      decide ((w.node ()).history.map (·.kind) = [.processed, .queued])) = true := by
    decide +kernel
  obtain ⟨w, hw, hkinds⟩ := (Option.any_eq_true _ _).mp hrun
  have hreach : Reachable w := Transition.Reachable.execute (.init hinit) hw
  exact ⟨w, by simpa using hkinds, flooding_controlled hreach ()⟩

end Relay

end OlsrNetwork

end Ns3.Olsr
