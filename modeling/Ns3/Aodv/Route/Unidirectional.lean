import Ns3.Aodv.Protocol.Rerr.RateLimit

namespace Ns3.Aodv

/-- Whether an effect is a reply to `n` that asks for an acknowledgement. Only
`SendReplyByIntermediateNode` asks for one. -/
def Effect.asksAck (n : Ipv4Address) : Effect → Bool
  | .send t => t.destination == n && (match t.message with
    | .rrep r => r.ack_required
    | _ => false)
  | _ => false

namespace RoutingProtocol

variable {s s₁ s' : RoutingProtocol} {n : Ipv4Address} {wait : Time}

/-- A step of a run: the state before it, the event with its time, and the state after it. -/
abbrev Step : Type := RoutingProtocol × (Time × Event) × RoutingProtocol

/-- An acknowledgement of `n` arrives. -/
def AckFrom (n : Ipv4Address) : Event → Prop
  | .recv_aodv _ sender _ .rrep_ack => sender = n
  | _ => False

/-- The request that an event brings to `RecvRequest`, with the state it finds and its previous hop. -/
def received_request (s : RoutingProtocol) : Event → Option (RoutingProtocol × RreqHeader × Ipv4Address)
  | .recv_aodv receiver sender _ (.rreq h) =>
    (s.update_route_to_neighbor sender (tunnel_receiver s.attrs sender receiver)).map fun s => (s, h, sender)
  | _ => none

/-- `RecvRequest` drops the request as one it has had before. -/
def Duplicate (s : RoutingProtocol) (h : RreqHeader) : Prop :=
  (s.rreq_id_cache.is_duplicate s.now h.origin h.id).1 = true

/-- No acknowledgement of `n` has come by `deadline` after the step `x` asked for one. -/
def Unacknowledged (n : Ipv4Address) (deadline : Time) (x : Step) (since : List Step) : Prop :=
  (effects x).any (Effect.asksAck n) = true ∧ ∀ y ∈ since, AckFrom n y.2.1.2 → deadline < y.2.1.1

/-- At the time `now`, after the steps in `past`, the link to `n` is taken to be unidirectional: an
acknowledgement has been waited for in vain, and the time on the blacklist is not over. -/
def Listed (wait period : Time) (past : List Step) (n : Ipv4Address) (now : Time) : Prop :=
  ∃ before x since, past = before ++ x :: since ∧ Unacknowledged n (x.2.1.1 + wait) x since ∧
    x.2.1.1 + wait < now ∧ now < x.2.1.1 + wait + period

/-- As `Listed`, with the first and the last moment. -/
def ListedClosed (wait period : Time) (past : List Step) (n : Ipv4Address) (now : Time) : Prop :=
  ∃ before x since, past = before ++ x :: since ∧ Unacknowledged n (x.2.1.1 + wait) x since ∧
    x.2.1.1 + wait ≤ now ∧ now ≤ x.2.1.1 + wait + period

/-- The handling of unidirectional links in a run. -/
structure Blacklists (wait : Time) (steps : List Step) : Prop where
  ignored : ∀ (past : List Step) (y : Step) (rest : List Step) (n : Ipv4Address) (s₁ : RoutingProtocol) (h : RreqHeader),
    steps = past ++ y :: rest → received_request { y.1 with now := y.2.1.1 } y.2.1.2 = some (s₁, h, n) →
    Listed wait y.1.attrs.black_list_timeout past n y.2.1.1 → s₁.accepted_request h n = none
  processed : ∀ (past : List Step) (y : Step) (rest : List Step) (n : Ipv4Address) (s₁ : RoutingProtocol) (h : RreqHeader),
    steps = past ++ y :: rest → received_request { y.1 with now := y.2.1.1 } y.2.1.2 = some (s₁, h, n) →
    ¬ ListedClosed wait y.1.attrs.black_list_timeout past n y.2.1.1 → ¬ s₁.Duplicate h →
    ∃ s₂, s₁.accepted_request h n = some s₂
  not_listed : ∀ (past : List Step) (y : Step) (rest : List Step) (n : Ipv4Address) (e : RoutingTableEntry),
    steps = past ++ y :: rest → ¬ ListedClosed wait y.1.attrs.black_list_timeout past n y.2.1.1 →
    y.1.routing_table.entries[n]? = some e → e.black_list_state = false

theorem accepted_request_iff {h : RreqHeader} (hs : s.routing_table.Sound) :
    (∃ s₂, s.accepted_request h n = some s₂) ↔ ¬ s.Duplicate h := by
  have hunlisted : ¬ (s.lookup_route n).1.any (·.black_list_state) = true := by
    intro hany
    obtain ⟨e, he, hlisted⟩ := (Option.any_eq_true _ _).mp hany
    rw [black_list_state_lookup hs he] at hlisted
    cases hlisted
  have hcache : (s.lookup_route n).2.rreq_id_cache = s.rreq_id_cache := rfl
  unfold accepted_request Duplicate
  simp only [hcache]
  rw [if_neg hunlisted]
  split
  next hdup => exact iff_of_false (by simp) (not_not.mpr hdup)
  next hnew => exact iff_of_true ⟨_, rfl⟩ hnew

theorem trace_sound {steps : List Step} (htrace : Transition.Trace Initial timed_step steps s) :
    ∀ x ∈ steps, x.1.routing_table.Sound := by
  obtain ⟨-, hsteps⟩ := (htrace.reachable fun _ _ => trivial : Run Transition.Always s ∧ _)
  exact fun x hx => Run.sound (hsteps x hx).1

theorem received_request_sound {e : Event} {h : RreqHeader} (hs : s.routing_table.Sound)
    (hreceived : s.received_request e = some (s₁, h, n)) : s₁.routing_table.Sound := by
  unfold received_request at hreceived
  split at hreceived
  · obtain ⟨s₂, hupdate, heq⟩ := Option.map_eq_some_iff.mp hreceived
    obtain ⟨rfl, -⟩ := Prod.mk.inj heq
    exact (update_route_to_neighbor_calm (Calm.refl hs) hupdate).table
  · cases hreceived

/-- While a neighbour is to be on the blacklist, a request of it is ignored only as a duplicate. -/
theorem Blacklists.duplicate {steps : List Step} (htrace : Transition.Trace Initial timed_step steps s)
    (hblacklists : Blacklists wait steps) (past : List Step) (y : Step) (rest : List Step) (n : Ipv4Address)
    (s₁ : RoutingProtocol) (h : RreqHeader) (hsteps : steps = past ++ y :: rest)
    (hreceived : received_request { y.1 with now := y.2.1.1 } y.2.1.2 = some (s₁, h, n))
    (hlisted : Listed wait y.1.attrs.black_list_timeout past n y.2.1.1) : s₁.Duplicate h := by
  have hsound := trace_sound htrace y (by rw [hsteps]; simp)
  have hs₁ := received_request_sound (s := { y.1 with now := y.2.1.1 }) hsound hreceived
  by_contra hnew
  obtain ⟨s₂, haccepted⟩ := (accepted_request_iff hs₁).mpr hnew
  rw [hblacklists.ignored past y rest n s₁ h hsteps hreceived hlisted] at haccepted
  cases haccepted

namespace Station

def greeted : List (Time × Event) :=
  [(0, .interface_up ipv4 1),
    (milliseconds 1, .recv_aodv own destination 1
      (.rrep { dst := destination, dst_seqno := 3, origin := destination, life_time := 60000 }))]

def asking (id : UInt32) : Event :=
  .recv_aodv own neighbor 64
    (.rreq { id, dst := destination, unknown_seqno := true, origin := far, origin_seqno := id })

/-- The neighbour asks and is asked for an acknowledgement, sends none, and asks again a second
later. The last state is the one that finds the second request. -/
def unacknowledged (s : RoutingProtocol) : Option (RoutingProtocol × RoutingProtocol × RoutingProtocol) :=
  (s.timed_step (milliseconds 2, asking 1)).bind fun s₁ =>
    (s₁.timed_step (milliseconds 1002, asking 2)).bind fun s₂ =>
      (received_request { s₁ with now := milliseconds 1002 } (asking 2)).map fun r => (s₁, s₂, r.1)

end Station

end RoutingProtocol

end Ns3.Aodv
