import Ns3.Aodv.Protocol.Run

namespace Ns3.Aodv

/-- The sequence numbers that a message claims for its origin and its destination are at most those of `cap`. -/
def Message.Within (cap : Ipv4Address → UInt32) : Message → Prop
  | .rreq h => h.origin_seqno ≤ cap h.origin ∧ (h.unknown_seqno = false → h.dst_seqno ≤ cap h.dst)
  | .rrep h => h.dst_seqno ≤ cap h.dst
  | _ => True

theorem Message.Within.mono {cap cap' : Ipv4Address → UInt32} {m : Message} (h : m.Within cap) (hle : ∀ d, cap d ≤ cap' d) :
    m.Within cap' := by
  cases m with
  | rreq r => exact ⟨UInt32.le_trans h.1 (hle _), fun hknown => UInt32.le_trans (h.2 hknown) (hle _)⟩
  | rrep r => exact UInt32.le_trans h (hle _)
  | _ => trivial

theorem Message.within_of_claims {cap : Ipv4Address → UInt32} {m : Message} (h : m.claims = false) : m.Within cap := by
  cases m with
  | rreq r => cases h
  | rrep r => cases h
  | _ => trivial

theorem RoutingProtocol.Detection.sent {s s' : RoutingProtocol} {t : Transmission} (h : Detection s s') (ht : .send t ∈ s'.log) :
    .send t ∈ s.log ∨ t.message.claims = false := by
  cases h with
  | start origin dst henable =>
    unfold start_rtt_probe at ht
    split at ht <;> exact .inl (by simpa [emit] using ht)
  | verify origin neighbor source hnew =>
    obtain ht | ht := List.mem_append.mp ht
    · exact .inl ht
    · simp only [List.mem_singleton, Effect.send.injEq] at ht
      exact .inr (by rw [ht]; rfl)
  | _ => exact .inl (by simpa [emit, erase_rtt_probe] using ht)

/-- The address that a change of the interfaces is about. -/
def RoutingProtocol.Event.interface_address : RoutingProtocol.Event → Option Ipv4InterfaceAddress
  | .interface_up ipv4 i | .add_address ipv4 i | .remove_address ipv4 i _ => ipv4.get_address i
  | _ => none

/-- The nodes of a network. A message stays in the log of the node that has sent it: it can arrive at any node, any number
of times, in any order, or nowhere. -/
abbrev Network (ι : Type*) := ι → RoutingProtocol

namespace Network

open RoutingProtocol (Action Actions Cause Change Detection Justified Known)
open Transition (Reachable)

variable {ι : Type*} {owner : Ipv4Address → ι} {n n' : Network ι} {i : ι} {c : Cause} {s s' : RoutingProtocol}

/-- A node handles an event that is not the arrival of a message, or a message of a log arrives at it. -/
inductive Event (ι : Type*)
  | act (i : ι) (t : Time) (e : RoutingProtocol.Event)
  | deliver (i : ι) (t : Time) (receiver : Ipv4Address) (j : ι) (k : Nat)

/-- The node where the event happens, and what it is there. -/
def occurrence (n : Network ι) : Event ι → Option (ι × Time × RoutingProtocol.Event)
  | .act _ _ (.recv_aodv ..) => none
  | .act i t e => some (i, t, e)
  | .deliver i t receiver j k =>
    match (n j).log[k]? with
    | some (.send x) => some (i, t, .recv_aodv receiver x.source x.ttl x.message)
    | _ => none

/-- The nodes before their first events; none of them is malicious. -/
def Initial (n : Network ι) : Prop := ∀ i, RoutingProtocol.Initial (n i) ∧ (n i).attrs.is_malicious = false

/-- A node uses only addresses that it owns, and its sequence number is not the last one. -/
def Admits (owner : Ipv4Address → ι) (n : Network ι) (e : Event ι) : Prop :=
  ∀ o ∈ n.occurrence e, (∀ iface ∈ o.2.2.interface_address, owner iface.local_addr = o.1) ∧ (n o.1).seq_no ≠ 0xffffffff

instance [DecidableEq ι] (n : Network ι) (e : Event ι) : Decidable (Admits owner n e) := by
  unfold Admits
  infer_instance

/-- The sequence number of the node that owns the address. -/
def number (owner : Ipv4Address → ι) (n : Network ι) (d : Ipv4Address) : UInt32 := (n (owner d)).seq_no

/-- No table and no message names a sequence number that the destination has not reached. -/
structure Faithful (owner : Ipv4Address → ι) (n : Network ι) : Prop where
  table : ∀ (i : ι) (d : Ipv4Address) (e : RoutingTableEntry), (n i).routing_table.entries[d]? = some e →
    e.valid_seq_no = true → e.seq_no ≤ number owner n d
  sent : ∀ (i : ι) (t : Transmission), .send t ∈ (n i).log → t.message.Within (number owner n)
  own : ∀ i, ∀ iface ∈ (n i).socket_addresses, owner iface.local_addr = i
  honest : ∀ i, (n i).attrs.is_malicious = false

/-- What the node `i` may take from the state an event starts in and from the message that arrives. -/
structure Accepts (owner : Ipv4Address → ι) (n : Network ι) (i : ι) (c : Cause) : Prop where
  table : ∀ (d : Ipv4Address) (e : RoutingTableEntry), c.start.routing_table.entries[d]? = some e →
    e.valid_seq_no = true → e.seq_no ≤ number owner n d
  heard : ∀ sender m, c.Received sender m → m.Within (number owner n)
  added : ∀ iface, c.Adds iface → owner iface.local_addr = i
  room : c.start.seq_no ≠ 0xffffffff

theorem Accepts.mono (h : Accepts owner n i c) (hle : ∀ d, number owner n d ≤ number owner n' d) : Accepts owner n' i c where
  table d e he hvalid := UInt32.le_trans (h.table d e he hvalid) (hle d)
  heard sender m hm := (h.heard sender m hm).mono hle
  added := h.added
  room := h.room

theorem Accepts.known (h : Accepts owner n i c) {d : Ipv4Address} {k : UInt32} (hknown : Known c d k) : k ≤ number owner n d := by
  obtain rfl | ⟨e, he, hvalid, rfl⟩ | ⟨r, sender, hreceived, rfl, rfl⟩ := hknown
  · exact UInt32.zero_le
  · exact h.table d e he hvalid
  · exact (h.heard _ _ hreceived).1

theorem Faithful.own_number (h : Faithful owner n) {d : Ipv4Address} (hd : (n i).is_my_own_address d = true) :
    number owner n d = (n i).seq_no := by
  obtain ⟨iface, hiface, hlocal⟩ := List.any_eq_true.mp hd
  rw [number, ← eq_of_beq hlocal, h.own i iface hiface]

theorem Faithful.justified (h : Faithful owner n) (hc : Accepts owner n i c) {m : Message} (hm : Justified c (n i) m) :
    m.Within (number owner n) := by
  cases hm with
  | request hsearch horigin hseq hhop hdst =>
    refine ⟨?_, fun _ => hc.known hdst⟩
    rw [h.own_number horigin, hseq]
    exact UInt32.le_refl _
  | forward_request hreceived horigin hseq hhop hdst hknown hroute =>
    obtain ⟨hfrom, hto⟩ := hc.heard _ _ hreceived
    refine ⟨by rw [horigin, hseq]; exact hfrom, fun hunknown => ?_⟩
    rw [hdst]
    obtain ⟨hsame, hnumber⟩ | hknown := hknown
    · rw [hnumber]
      exact hto (hsame ▸ hunknown)
    · exact hc.known hknown
  | own_reply hdst hseq hhop =>
    rw [Message.Within, h.own_number hdst, hseq]
    exact UInt32.le_refl _
  | reply hreply => exact hc.known (hreply (h.honest i)).1
  | forward_reply hreceived hdst hseq hhop hroute =>
    rw [Message.Within, hdst, hseq]
    exact hc.heard _ _ hreceived
  | other hclaims hprobe => exact Message.within_of_claims hclaims

theorem Accepts.change (h : Accepts owner n i c) {d : Ipv4Address} {old : Option RoutingTableEntry} {e : RoutingTableEntry}
    (hhonest : s.attrs.is_malicious = false) (hchange : Change c s d old (some e))
    (hold : ∀ e, old = some e → e.valid_seq_no = true → e.seq_no ≤ number owner n d) (hvalid : e.valid_seq_no = true) :
    e.seq_no ≤ number owner n d := by
  cases hchange with
  | decay hdecay =>
    obtain ⟨e₀, he₀, hsame, -⟩ := hdecay e rfl
    rw [hsame.seq_no]
    exact hold e₀ he₀ (hsame.valid_seq_no ▸ hvalid)
  | search hsearch hsame hseq hroute hflag =>
    rw [hseq]
    exact hold _ rfl (hsame ▸ hvalid)
  | search_new hsearch hfresh hflag => rw [hfresh] at hvalid; cases hvalid
  | neighbor hreceived hfresh hnext hdevice hflag => rw [hfresh] at hvalid; cases hvalid
  | hello hreceived hhello hdst hseq hnext hdevice hflag =>
    rw [hseq, ← hdst]
    exact h.heard _ _ hreceived
  | record hadds hdst hseq hnext hdevice hflag =>
    rw [hseq]
    exact UInt32.zero_le
  | overwrite hforged =>
    obtain ⟨-, hfresh⟩ | ⟨hmalicious, -⟩ := hforged.origin
    · rw [hfresh] at hvalid
      cases hvalid
    · rw [hhonest] at hmalicious
      cases hmalicious
  | reverse hreceived hdst _ hseq hhops hnext hdevice hflag hquiet =>
    obtain hseq | ⟨e₀, he₀, hvalid₀, hseq, -⟩ := hseq
    · rw [hseq, ← hdst]
      exact (h.heard _ _ hreceived).1
    · rw [hseq]
      exact h.table d e₀ he₀ hvalid₀
  | reply hreceived hhello hdst _ hseq hhops hnext hdevice hflag hsuspect hquiet =>
    rw [hseq, ← hdst]
    exact h.heard _ _ hreceived
  | ack hreceived hroute hdevice hflag =>
    rw [hroute.seq_no]
    exact hold _ rfl (hroute.valid_seq_no ▸ hvalid)

theorem received {e : Event ι} {t : Time} {receiver sender : Ipv4Address} {ttl : UInt8} {m : Message}
    (h : n.occurrence e = some (i, t, .recv_aodv receiver sender ttl m)) : ∃ j x, .send x ∈ (n j).log ∧ x.message = m := by
  cases e with
  | act i' t' e' => cases e' <;> cases h
  | deliver i' t' receiver' j k =>
    simp only [occurrence] at h
    split at h
    next x hx =>
      cases h
      exact ⟨j, x, List.mem_of_getElem? hx, rfl⟩
    next => cases h

theorem Initial.faithful (h : Initial n) : Faithful owner n := by
  constructor
  · intro i d e he _
    obtain ⟨⟨attrs, len, time, detect, verification, lo, hinit⟩, -⟩ := h i
    have hzero : e.seq_no = 0 := by
      rw [hinit, RoutingProtocol.init, RoutingTable.getElem?_add_route, RoutingTable.getElem?_purge] at he
      split at he
      next =>
        cases he
        rfl
      next => simp at he
    rw [hzero]
    exact UInt32.zero_le
  · intro i t ht
    obtain ⟨⟨attrs, len, time, detect, verification, lo, hinit⟩, -⟩ := h i
    rw [hinit] at ht
    cases ht
  · intro i iface hiface
    obtain ⟨⟨attrs, len, time, detect, verification, lo, hinit⟩, -⟩ := h i
    rw [hinit] at hiface
    cases hiface
  · intro i
    exact (h i).2

section Run

variable [DecidableEq ι]

def step (n : Network ι) (e : Event ι) : Option (Network ι) :=
  (n.occurrence e).bind fun o => ((n o.1).timed_step o.2).map (Function.update n o.1)

theorem number_update (hseq : (n i).seq_no ≤ s'.seq_no) (d : Ipv4Address) :
    number owner n d ≤ number owner (Function.update n i s') d := by
  rw [number, number, Function.update_apply]
  split
  next howner =>
    rw [howner]
    exact hseq
  next => exact UInt32.le_refl _

/-- A node that changes within the bounds of the network keeps it faithful. -/
theorem Faithful.update (h : Faithful owner n) (hseq : (n i).seq_no ≤ s'.seq_no) (hattrs : s'.attrs = (n i).attrs)
    (htable : ∀ (d : Ipv4Address) (e : RoutingTableEntry), s'.routing_table.entries[d]? = some e → e.valid_seq_no = true →
      e.seq_no ≤ number owner n d)
    (hsent : ∀ t : Transmission, .send t ∈ s'.log → .send t ∈ (n i).log ∨ t.message.Within (number owner n))
    (hown : ∀ iface ∈ s'.socket_addresses, iface ∈ (n i).socket_addresses ∨ owner iface.local_addr = i) :
    Faithful owner (Function.update n i s') := by
  have hle : ∀ d, number owner n d ≤ number owner (Function.update n i s') d := number_update hseq
  constructor
  · intro j d e he hvalid
    rw [Function.update_apply] at he
    split at he
    next => exact UInt32.le_trans (htable d e he hvalid) (hle d)
    next => exact UInt32.le_trans (h.table j d e he hvalid) (hle d)
  · intro j t ht
    rw [Function.update_apply] at ht
    split at ht
    next =>
      obtain ht | ht := hsent t ht
      · exact (h.sent i t ht).mono hle
      · exact ht.mono hle
    next => exact (h.sent j t ht).mono hle
  · intro j iface hiface
    rw [Function.update_apply] at hiface
    split at hiface
    next hj =>
      obtain hiface | howner := hown iface hiface
      · exact (h.own i iface hiface).trans hj.symm
      · exact howner.trans hj.symm
    next => exact h.own j iface hiface
  · intro j
    rw [Function.update_apply]
    split
    next => exact hattrs ▸ h.honest i
    next => exact h.honest j

/-- A node that keeps its table and its sockets. -/
theorem Faithful.keep (h : Faithful owner n) (hseq : (n i).seq_no ≤ s'.seq_no) (hattrs : s'.attrs = (n i).attrs)
    (htable : s'.routing_table = (n i).routing_table) (hsockets : s'.socket_addresses = (n i).socket_addresses)
    (hsent : ∀ t : Transmission, .send t ∈ s'.log → .send t ∈ (n i).log ∨ t.message.Within (number owner n)) :
    Faithful owner (Function.update n i s') := by
  refine h.update hseq hattrs ?_ hsent ?_
  · rw [htable]
    exact h.table i
  · rw [hsockets]
    exact fun _ => .inl

/-- An action at a node keeps the network faithful, and does not lower the node's number. -/
theorem Faithful.action (h : Faithful owner n) (hc : Accepts owner n i c) (hs : n i = s) (haction : Action c s s') :
    Faithful owner (Function.update n i s') ∧ s.seq_no ≤ s'.seq_no := by
  have hrefl : (n i).seq_no ≤ (n i).seq_no := UInt32.le_refl _
  cases haction with
  | internal hinternal =>
    rw [hinternal]
    subst hs
    exact ⟨h.keep hrefl rfl rfl rfl fun _ => .inl, hrefl⟩
  | table hlifetime hchange =>
    subst hs
    refine ⟨h.update hrefl rfl ?_ (fun _ => .inl) fun _ => .inl, hrefl⟩
    intro d e he hvalid
    exact hc.change (h.honest i) (he ▸ hchange d) (h.table i d) hvalid
  | increment hseq =>
    subst hs
    have hle : (n i).seq_no ≤ (n i).seq_no + 1 := by
      have hroom := hc.room
      rw [← hseq, ne_eq, ← UInt32.toNat_inj] at hroom
      have hlt := (n i).seq_no.toNat_lt
      rw [UInt32.le_iff_toNat_le, UInt32.toNat_add]
      simp at hroom ⊢
      omega
    exact ⟨h.keep hle rfl rfl rfl fun _ => .inl, hle⟩
  | send hsource hjustified =>
    subst hs
    refine ⟨h.keep hrefl rfl rfl rfl fun t ht => ?_, hrefl⟩
    obtain ht | ht := List.mem_append.mp ht
    · exact .inl ht
    · simp only [List.mem_singleton, Effect.send.injEq] at ht
      exact .inr (ht ▸ h.justified hc hjustified)
  | report heffect =>
    subst hs
    refine ⟨h.keep hrefl rfl rfl rfl fun t ht => .inl ?_, hrefl⟩
    obtain ⟨_, _, _, rfl⟩ | ⟨_, _, _, _, rfl⟩ | ⟨_, _, _, rfl⟩ := heffect
    all_goals simpa [RoutingProtocol.emit] using ht
  | forward hforwards =>
    subst hs
    exact ⟨h.keep hrefl rfl rfl rfl fun t ht => .inl (by simpa [RoutingProtocol.emit] using ht), hrefl⟩
  | detect hdetection =>
    subst hs
    have hsent := fun t => hdetection.sent (t := t)
    rw [hdetection.frame]
    exact ⟨h.keep hrefl rfl rfl rfl fun t ht => (hsent t ht).imp_right Message.within_of_claims, hrefl⟩
  | configure hconfigure hsockets =>
    subst hs
    rw [hconfigure]
    refine ⟨h.update hrefl rfl (h.table i) (fun _ => .inl) ?_, hrefl⟩
    exact fun iface hiface => (hsockets iface hiface).imp_right (hc.added iface)

theorem Faithful.actions (h : Faithful owner n) (hc : Accepts owner n i c) (hs : n i = s) (hactions : Actions c s s') :
    Faithful owner (Function.update n i s') ∧ s.seq_no ≤ s'.seq_no := by
  induction hactions with
  | refl =>
    subst hs
    rw [Function.update_eq_self]
    exact ⟨h, UInt32.le_refl _⟩
  | @tail s₁ s₂ hprefix hlast ih =>
    obtain ⟨hfaithful, hle⟩ := ih
    have haccepts := hc.mono (number_update (hs ▸ hle))
    obtain ⟨hfaithful', hle'⟩ := hfaithful.action haccepts (Function.update_self i s₁ n) hlast
    rw [Function.update_idem] at hfaithful'
    exact ⟨hfaithful', UInt32.le_trans hle hle'⟩

theorem Faithful.step {e : Event ι} (h : Faithful owner n) (hadmits : Admits owner n e) (hstep : n.step e = some n') :
    Faithful owner n' ∧ ∀ d, number owner n d ≤ number owner n' d := by
  obtain ⟨⟨i, t, e'⟩, hocc, hnode⟩ := Option.bind_eq_some_iff.mp hstep
  obtain ⟨s', hs', rfl⟩ := Option.map_eq_some_iff.mp hnode
  obtain ⟨hclock, hactions⟩ := RoutingProtocol.step_actions hs'
  obtain ⟨hown, hroom⟩ := hadmits _ hocc
  -- the clock is set before the event is handled
  have hset : Faithful owner (Function.update n i { n i with now := t }) :=
    h.keep (UInt32.le_refl _) rfl rfl rfl fun _ => .inl
  have haccepts : Accepts owner (Function.update n i { n i with now := t }) i ((n i).cause (t, e')) := by
    refine Accepts.mono (n := n) ⟨h.table i, ?_, ?_, hroom⟩ (number_update (UInt32.le_refl _))
    · rintro sender m ⟨receiver, ttl, rfl⟩
      obtain ⟨j, x, hx, rfl⟩ := received hocc
      exact h.sent j x hx
    · intro iface hadds
      cases e' with
      | interface_up ipv4 k => exact hown iface hadds.1
      | add_address ipv4 k => exact hown iface hadds.1
      | remove_address ipv4 k address => exact hown iface hadds
      | _ => cases hadds
  obtain ⟨hfaithful, hle⟩ := hset.actions haccepts (Function.update_self ..) hactions
  rw [Function.update_idem] at hfaithful
  exact ⟨hfaithful, number_update hle⟩

/-- In every run of a network of honest nodes, over which messages are lost, delayed, repeated and reordered, no table and
no message names a sequence number that its destination has not reached, and no node lowers its own. -/
theorem sequence_numbers_faithful (h : Reachable Initial step (Admits owner) n) :
    Faithful owner n ∧ ∀ e n', Admits owner n e → n.step e = some n' → ∀ d, number owner n d ≤ number owner n' d := by
  have hfaithful : Faithful owner n := h.invariant (I := Faithful owner) (fun _ hinit => hinit.faithful)
    fun _ _ _ hs hadmits hstep => (hs.step hadmits hstep).1
  exact ⟨hfaithful, fun _ _ hadmits hstep => (hfaithful.step hadmits hstep).2⟩

end Run

/-! Two neighbours. -/

namespace Pair

open RoutingProtocol (Station.own Station.neighbor Station.packet Station.header Station.usual Station.ipv4)

def usual : Network Bool := fun _ => Station.usual

def host (d : Ipv4Address) : Bool := d == Station.neighbor

def ipv4 : Ipv4 where
  interfaces := [{ device := 0, addresses := [.of Ipv4Address.get_loopback 0xff000000] },
    { device := 1, addresses := [.of Station.neighbor 0xffffff00] }]

/-- The neighbour searches for a destination of its own, and then replies to a request. -/
def exchange : List (Event Bool) :=
  [.act false 0 (.interface_up Station.ipv4 1), .act true 0 (.interface_up ipv4 1),
    .act true 0 (.route_input Station.packet { Station.header with source := Station.neighbor } 0 ⟨0, 1, false⟩),
    .act false 0 (.route_input Station.packet { Station.header with destination := Station.neighbor } 0 ⟨0, 1, false⟩),
    .deliver true (milliseconds 1) Station.neighbor false 1, .deliver false (milliseconds 2) Station.own true 2]

end Pair

/-- The reply brings the origin the first sequence number of its neighbour. -/
theorem sequence_numbers_faithful_pair : ∃ n, Reachable Initial step (Admits Pair.host) n ∧
    (n false).routing_table.entries[RoutingProtocol.Station.neighbor]?.map (fun e => (e.valid_seq_no, e.seq_no)) = some (true, 1) ∧
    Faithful Pair.host n ∧
    ∀ e n', Admits Pair.host n e → n.step e = some n' → ∀ d, number Pair.host n d ≤ number Pair.host n' d := by
  have hrun : (Transition.execute step (Admits Pair.host) Pair.usual Pair.exchange).map (fun n =>
      (n false).routing_table.entries[RoutingProtocol.Station.neighbor]?.map fun e => (e.valid_seq_no, e.seq_no)) =
      some (some (true, 1)) := by decide +kernel
  obtain ⟨n, hn, hentry⟩ := Option.map_eq_some_iff.mp hrun
  have hinitial : Initial Pair.usual := fun _ => ⟨RoutingProtocol.Station.usual_initial, rfl⟩
  have hreach := (Reachable.init hinitial).execute hn
  exact ⟨n, hreach, hentry, sequence_numbers_faithful hreach⟩

end Network

end Ns3.Aodv
