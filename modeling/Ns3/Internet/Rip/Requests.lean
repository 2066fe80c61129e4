import Ns3.Internet.Rip

namespace Ns3.Rip

def RIP_PORT : UInt16 := 520

/-- `Ipv4Mask::GetPrefixLength`: the shifts to the left until nothing is left of the mask. -/
def get_prefix_length (mask : Ipv4Mask) : ℕ :=
  ((List.range 33).find? fun n => mask.toNat <<< n % 2 ^ 32 == 0).getD 32

/-- The RTE that stands for the whole table. -/
def asks_whole_table (rte : RipRte) : Bool :=
  rte.prefixAddr == Ipv4Address.get_zero && get_prefix_length rte.subnet_mask == 0 &&
    rte.route_metric == link_down

/-- A message that is sent in answer to a request. -/
structure Answer where
  address : Ipv4Address
  port : UInt16
  rtes : List RipRte
deriving DecidableEq, Repr

/-- What the answer to a whole-table request has for a route. -/
def answer_route (p : RipAttributes) (incomingInterface : ℕ) (route : RipRoutingTableEntry) :
    Option RipRte :=
  let splitHorizoning := route.interface = incomingInterface
  let isGlobal := (Ipv4InterfaceAddress.of route.dest_network route.dest_network_mask).scope = .global
  let isDefaultRoute := route.dest_network = Ipv4Address.get_zero ∧
    route.dest_network_mask = Ipv4Mask.get_zero ∧ route.interface ≠ incomingInterface
  let rte : RipRte :=
    { prefixAddr := route.dest_network
      subnet_mask := route.dest_network_mask
      route_metric :=
        if p.m_splitHorizonStrategy = .POISON_REVERSE ∧ splitHorizoning then link_down
        else route.metric
      route_tag := route.tag }
  if (isGlobal ∨ isDefaultRoute) ∧ route.status = .RIP_VALID then
    if p.m_splitHorizonStrategy ≠ .SPLIT_HORIZON ∨ ¬ splitHorizoning then some rte else none
  else none

/-- The messages that answer a whole-table request. -/
def whole_table (p : RipAttributes) (s : Rip) (incomingInterface : ℕ) : List (List RipRte) :=
  packets (max_rte ((s.m_ipv4[incomingInterface]?.map (·.mtu)).getD 0))
    (fun it => answer_route p incomingInterface it.entry) s.m_routes []

/-- A VALID entry of global scope. -/
def answerable (route : RipRoutingTableEntry) : Bool :=
  (Ipv4InterfaceAddress.of route.dest_network route.dest_network_mask).scope == .global &&
    route.status == .RIP_VALID

/-- The entry that a requested one is answered with: the addresses that `CombineMask` returns are
not used, so that the addresses are compared as they stand, and the masks are not compared. -/
def requested_entry (s : Rip) (rte : RipRte) : Option RipRoute :=
  s.m_routes.find? fun it => answerable it.entry && rte.prefixAddr == it.entry.dest_network

def answer_rte (s : Rip) (rte : RipRte) : RipRte :=
  match s.requested_entry rte with
  | some it => { rte with route_metric := it.entry.metric, route_tag := it.entry.tag }
  | none => { rte with route_metric := link_down, route_tag := 0 }

/-- `HandleRequests`. None where no socket can send the answer, which is asserted not to happen. -/
def handle_requests (p : RipAttributes) (s : Rip) (rtes : List RipRte) (senderAddress : Ipv4Address)
    (senderPort : UInt16) (incomingInterface : ℕ) : Option (List Answer) :=
  match rtes with
  | [] => some []
  | [rte] =>
    if asks_whole_table rte then
      if p.excluded incomingInterface then some []
      else if s.m_unicastSocketList.any fun socket => socket.2 == incomingInterface then
        some ((s.whole_table p incomingInterface).map fun hdr => ⟨senderAddress, RIP_PORT, hdr⟩)
      else none
    -- a single entry of any other kind gets no answer
    else some []
  | rtes => some [⟨senderAddress, senderPort, rtes.map s.answer_rte⟩]

section Specific

variable {p : RipAttributes} {s : Rip} {rte answer : RipRte} {rtes : List RipRte}

/-- The VALID global entry for exactly the network and the mask of a requested one. -/
def exact_entry (s : Rip) (rte : RipRte) : Option RipRoute :=
  s.m_routes.find? fun it => answerable it.entry && it.entry.destination == rte.destination

/-- The answer lists the requested entry with the metric and the tag of the entry for exactly its
network and mask, and with metric 16 where there is none. -/
structure Answers (s : Rip) (rte answer : RipRte) : Prop where
  prefixAddr : answer.prefixAddr = rte.prefixAddr
  subnet_mask : answer.subnet_mask = rte.subnet_mask
  found : ∀ it, s.exact_entry rte = some it →
    answer.route_metric = it.entry.metric ∧ answer.route_tag = it.entry.tag
  missing : s.exact_entry rte = none → answer.route_metric = link_down

/-- The first entry with the requested address as its network says the same as the one for exactly
the requested network and mask. -/
def SameEntry (s : Rip) (rte : RipRte) : Prop :=
  match s.exact_entry rte, s.requested_entry rte with
  | some it, some it' => it'.entry.metric = it.entry.metric ∧ it'.entry.tag = it.entry.tag
  | some it, none => it.entry.metric = link_down ∧ it.entry.tag = 0
  | none, some it' => it'.entry.metric = link_down
  | none, none => True

theorem answers_answer_rte_iff : s.Answers rte (s.answer_rte rte) ↔ s.SameEntry rte := by
  unfold SameEntry answer_rte
  cases hexact : s.exact_entry rte with
  | some it =>
    cases hrequested : s.requested_entry rte with
    | some it' =>
      constructor
      · intro h
        exact h.found it hexact
      · intro h
        refine ⟨rfl, rfl, fun it₁ hit₁ => ?_, fun hnone => ?_⟩
        · rw [← Option.some.inj (hexact.symm.trans hit₁)]
          exact h
        · cases hexact.symm.trans hnone
    | none =>
      constructor
      · intro h
        obtain ⟨hmetric, htag⟩ := h.found it hexact
        exact ⟨hmetric.symm, htag.symm⟩
      · intro h
        refine ⟨rfl, rfl, fun it₁ hit₁ => ?_, fun hnone => ?_⟩
        · rw [← Option.some.inj (hexact.symm.trans hit₁)]
          exact ⟨h.1.symm, h.2.symm⟩
        · cases hexact.symm.trans hnone
  | none =>
    cases hrequested : s.requested_entry rte with
    | some it' =>
      constructor
      · intro h
        exact h.missing hexact
      · intro h
        refine ⟨rfl, rfl, fun it₁ hit₁ => ?_, fun _ => h⟩
        cases hexact.symm.trans hit₁
    | none =>
      refine iff_of_true ⟨rfl, rfl, fun it₁ hit₁ => ?_, fun _ => rfl⟩ trivial
      cases hexact.symm.trans hit₁

theorem handle_requests_eq (hlength : 2 ≤ rtes.length) (senderAddress : Ipv4Address)
    (senderPort : UInt16) (incomingInterface : ℕ) :
    s.handle_requests p rtes senderAddress senderPort incomingInterface =
      some [⟨senderAddress, senderPort, rtes.map s.answer_rte⟩] := by
  match rtes, hlength with
  | _ :: _ :: _, _ => rfl

/-- Specific entries are answered rightly exactly if two or more are requested and, for each, the
first entry with the requested address says the same as the one for its network and mask. -/
theorem specific_request_iff (p : RipAttributes) (s : Rip) (rtes : List RipRte)
    (senderAddress : Ipv4Address) (senderPort : UInt16) (incomingInterface : ℕ) (hne : rtes ≠ [])
    (hspecific : ∀ rte, rtes = [rte] → asks_whole_table rte = false) :
    (∃ answer, s.handle_requests p rtes senderAddress senderPort incomingInterface =
        some [⟨senderAddress, senderPort, answer⟩] ∧ List.Forall₂ s.Answers rtes answer) ↔
      2 ≤ rtes.length ∧ ∀ rte ∈ rtes, s.SameEntry rte := by
  have hall : List.Forall₂ s.Answers rtes (rtes.map s.answer_rte) ↔ ∀ rte ∈ rtes, s.SameEntry rte := by
    rw [List.forall₂_map_right_iff, List.forall₂_same]
    exact forall₂_congr fun rte _ => answers_answer_rte_iff
  by_cases hlength : 2 ≤ rtes.length
  · rw [handle_requests_eq hlength]
    constructor
    · rintro ⟨answer, hanswer, hright⟩
      obtain rfl : rtes.map s.answer_rte = answer := by simpa using hanswer
      exact ⟨hlength, hall.mp hright⟩
    · intro h
      exact ⟨_, rfl, hall.mpr h.2⟩
  · -- a single entry gets no answer
    refine iff_of_false ?_ fun h => hlength h.1
    obtain ⟨rte, rfl⟩ : ∃ rte, rtes = [rte] := by
      have hpos := List.length_pos_iff.mpr hne
      exact List.length_eq_one_iff.mp (by omega)
    rintro ⟨answer, hanswer, -⟩
    rw [handle_requests, if_neg (by simp [hspecific rte rfl])] at hanswer
    cases hanswer

/-- A router with a VALID route to 10.0.0.0/24, tag 7 and metric 3. -/
def answeringRouter : Rip :=
  { m_routes := [⟨0, ⟨0x0a000000, 0xffffff00, 0x0a010001, 0, 7, 3, .RIP_VALID, false⟩, none, 0, 0⟩]
    m_ipv4 := [] }

theorem specific_request_two :
    ∃ answer, answeringRouter.handle_requests {}
        [⟨0x0a000000, 0xffffff00, 0, 16⟩, ⟨0x0b000000, 0xff000000, 0, 16⟩] 0x0a020002 520 0 = some [⟨0x0a020002, 520, answer⟩] ∧
      List.Forall₂ answeringRouter.Answers
        [⟨0x0a000000, 0xffffff00, 0, 16⟩, ⟨0x0b000000, 0xff000000, 0, 16⟩] answer := by
  refine (specific_request_iff {} answeringRouter _ 0x0a020002 520 0 (by simp) (by simp)).mpr ⟨le_rfl, ?_⟩
  intro rte hrte
  rcases List.mem_cons.mp hrte with rfl | hrte
  · exact ⟨rfl, rfl⟩
  · obtain rfl := List.mem_singleton.mp hrte
    exact trivial

/-- A single entry is not answered. -/
theorem specific_request_unanswered :
    ¬ ∀ (p : RipAttributes) (s : Rip) (rtes : List RipRte) (senderAddress : Ipv4Address)
      (senderPort : UInt16) (incomingInterface : ℕ), rtes ≠ [] →
      (∀ rte, rtes = [rte] → asks_whole_table rte = false) →
      ∃ answer, s.handle_requests p rtes senderAddress senderPort incomingInterface =
        some [⟨senderAddress, senderPort, answer⟩] ∧ List.Forall₂ s.Answers rtes answer := by
  intro hall
  obtain ⟨answer, hanswer, -⟩ := hall {} answeringRouter [⟨0x0a000000, 0xffffff00, 0, 16⟩] 0x0a020002 520 0
    (by simp) fun rte hrte => by
      rw [← List.singleton_inj.mp hrte]
      decide
  cases hanswer

end Specific

end Ns3.Rip
