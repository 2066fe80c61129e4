import Ns3.Dsr.LinkCache
import Ns3.Foundation.ShortestRoute

namespace Ns3.Dsr

open ShortestRoute (Route Shortest)

variable {G : NetGraph} {source u v t k : Ipv4Address} {q q' : Search} {link_cache : OrderedMap Link Time} {now : Time}

def Edge (G : NetGraph) (u v : Ipv4Address) : Prop := ((G.find u).getD ∅).find v = some 1

/-- A graph whose links have weight one and lead both ways, without the address that stands for no node. -/
structure Plain (G : NetGraph) : Prop where
  unit : ∀ u v w, ((G.find u).getD ∅).find v = some w → w = 1
  symm : ∀ u v, Edge G u v → Edge G v u
  proper : G.find Ipv4Address.get_broadcast = none

theorem Edge.source_mem (h : Edge G u v) : (G.find u).isSome := by
  rw [Edge] at h
  cases hfind : G.find u with
  | none =>
    rw [hfind] at h
    cases h
  | some links => rfl

theorem Plain.dest_mem (hG : Plain G) (h : Edge G u v) : (G.find v).isSome := (hG.symm u v h).source_mem

theorem Plain.ne_broadcast (hG : Plain G) (h : (G.find u).isSome) : u ≠ Ipv4Address.get_broadcast := by
  rintro rfl
  rw [hG.proper] at h
  cases h

/-- No link of the cache leads to the address that stands for no node. -/
def ProperLinks (link_cache : OrderedMap Link Time) : Prop :=
  ∀ a b stability, link_cache.find (Link.of a b) = some stability → b ≠ Ipv4Address.get_broadcast

namespace Search

/-- The estimate of a node; there is none beyond the greatest weight. -/
def dist (q : Search) (v : Ipv4Address) : Nat := (q.d.find v).getD maxweight

/-- The estimates and the preceding nodes fit together. -/
structure Sound (G : NetGraph) (source : Ipv4Address) (q : Search) : Prop where
  keys : ∀ v, (q.d.find v).isSome ↔ v = source ∨ (G.find v).isSome
  links : ∀ v, (q.net_graph.find v).getD ∅ = (G.find v).getD ∅
  nodes : ∀ v, (G.find v).isSome → (q.net_graph.find v).isSome
  within : ∀ v, (q.net_graph.find v).isSome → v = source ∨ (G.find v).isSome
  zero : q.dist source = 0
  far : ∀ v, v ≠ source → 0 < q.dist v ∧ q.dist v ≤ maxweight
  known : ∀ v, (q.pre.find v).isSome ↔ (G.find v).isSome
  pre : ∀ v, v ≠ source → q.dist v < maxweight →
    ∃ u, q.pre.find v = some u ∧ (u = source ∨ u ∈ q.s) ∧ Edge G u v ∧ q.dist v = q.dist u + 1
  unreached : ∀ v u, v ≠ source → q.pre.find v = some u → u ≠ Ipv4Address.get_broadcast → q.dist v < maxweight

/-- Some nodes that are not settled have come next to the chosen one. -/
structure Nearer (q q' : Search) : Prop where
  settled : q'.s = q.s
  chosen : q'.tempip = q.tempip
  graph : q'.net_graph = q.net_graph
  dist : ∀ v, q'.dist v = q.dist v ∨ v ∉ q.s ∧ q'.dist v = q.dist q.tempip + 1 ∧ q'.dist v ≤ q.dist v

theorem Nearer.refl : Nearer q q := ⟨rfl, rfl, rfl, fun _ => .inl rfl⟩

theorem Nearer.dist_of_mem (h : Nearer q q') (hv : v ∈ q.s) : q'.dist v = q.dist v := by
  rcases h.dist v with heq | ⟨hnot, -, -⟩
  · exact heq
  · exact absurd hv hnot

theorem Nearer.dist_le (h : Nearer q q') (v : Ipv4Address) : q'.dist v ≤ q.dist v := by
  rcases h.dist v with heq | ⟨-, -, hle⟩
  · exact heq.le
  · exact hle

theorem Nearer.trans {q'' : Search} (h : Nearer q q') (h' : Nearer q' q'') (ht : q.tempip ∈ q.s) : Nearer q q'' := by
  refine ⟨h'.settled.trans h.settled, h'.chosen.trans h.chosen, h'.graph.trans h.graph, fun v => ?_⟩
  have hchosen : q'.dist q'.tempip = q.dist q.tempip := by rw [h.chosen, h.dist_of_mem ht]
  rcases h'.dist v with heq | ⟨hnot, hnew, hle⟩
  · rw [heq]
    exact h.dist v
  · rw [h.settled] at hnot
    exact .inr ⟨hnot, by rw [hnew, hchosen], hle.trans (h.dist_le v)⟩

theorem distance_eq (h : (q.d.find v).isSome) : q.distance v = q.dist v := by
  obtain ⟨n, hn⟩ := Option.isSome_iff_exists.mp h
  rw [distance, dist, hn]
  rfl

/-- The part of the cache the search depends on. -/
structure Relaxing (G : NetGraph) (source : Ipv4Address) (q : Search) : Prop extends Sound G source q where
  chosen : q.tempip ∈ q.s
  last : ∀ u ∈ q.s, q.dist u ≤ q.dist q.tempip

theorem Relaxing.precede (h : Relaxing G source q) (hG : Plain G) (hedge : Edge G q.tempip k) (hk : k ∉ q.s)
    (hle : q.dist q.tempip + 1 ≤ q.dist k) (hroom : q.dist q.tempip + 1 < maxweight) :
    Relaxing G source (q.precede (k, 1)) ∧ Nearer q (q.precede (k, 1)) ∧
      (q.precede (k, 1)).dist k = q.dist q.tempip + 1 := by
  have hsource : k ≠ source := by
    rintro rfl
    have hzero := h.zero
    omega
  have hknown : q.distance q.tempip = q.dist q.tempip := distance_eq ((h.keys _).mpr (.inr hedge.source_mem))
  have hdist : ∀ v, (q.precede (k, 1)).dist v = if v = k then q.dist q.tempip + 1 else q.dist v := by
    intro v
    rw [dist, Search.precede]
    simp only [OrderedMap.find_set, hknown]
    split <;> rfl
  have hpre : ∀ v, (q.precede (k, 1)).pre.find v = if v = k then some q.tempip else q.pre.find v :=
    fun v => OrderedMap.find_set _ _ _ _
  have hkeep : ∀ u, u = source ∨ u ∈ q.s → (q.precede (k, 1)).dist u = q.dist u := by
    intro u hu
    rw [hdist, if_neg]
    rintro rfl
    exact hu.elim hsource hk
  have hnearer : Nearer q (q.precede (k, 1)) := by
    refine ⟨rfl, rfl, rfl, fun v => ?_⟩
    rw [hdist]
    split
    next heq =>
      subst heq
      exact .inr ⟨hk, rfl, hle⟩
    · exact .inl rfl
  refine ⟨⟨⟨?_, h.links, h.nodes, h.within, ?_, ?_, ?_, ?_, ?_⟩, h.chosen, ?_⟩, hnearer, ?_⟩
  · intro v
    rw [← h.keys v]
    change ((q.d.set k _).find v).isSome ↔ _
    rw [OrderedMap.find_set]
    split
    next heq =>
      subst heq
      exact iff_of_true rfl ((h.keys _).mpr (.inr (hG.dest_mem hedge)))
    · exact Iff.rfl
  · rw [hkeep source (.inl rfl)]
    exact h.zero
  · intro v hv
    rw [hdist]
    split
    · omega
    · exact h.far v hv
  · intro v
    rw [hpre]
    split
    next heq =>
      subst heq
      exact iff_of_true rfl (hG.dest_mem hedge)
    · exact h.known v
  · intro v hv hlt
    rw [hdist] at hlt ⊢
    rw [hpre]
    split at hlt
    next heq =>
      subst heq
      rw [if_pos rfl, if_pos rfl]
      exact ⟨q.tempip, rfl, .inr h.chosen, hedge, by rw [hkeep _ (.inr h.chosen)]⟩
    next hne =>
      rw [if_neg hne, if_neg hne]
      obtain ⟨u, hu, hsettled, hlink, hsum⟩ := h.pre v hv hlt
      exact ⟨u, hu, hsettled, hlink, by rw [hkeep u hsettled, hsum]⟩
  · intro v u hv hu hne
    rw [hdist]
    rw [hpre] at hu
    split at hu
    next heq => rwa [if_pos heq]
    next heq =>
      rw [if_neg heq]
      exact h.unreached v u hv hu hne
  · intro u hu
    have htemp : (q.precede (k, 1)).dist (q.precede (k, 1)).tempip = q.dist q.tempip := hkeep _ (.inr h.chosen)
    rw [hkeep u (.inr hu), htemp]
    exact h.last u hu
  · rw [hdist, if_pos rfl]

theorem Relaxing.relax {t : Time} (h : Relaxing G source q) (hG : Plain G) (hlinks : ProperLinks link_cache) (hedge : Edge G q.tempip k) :
    Relaxing G source (q.relax link_cache t (k, 1)) ∧ Nearer q (q.relax link_cache t (k, 1)) ∧
      (q.relax link_cache t (k, 1)).dist k ≤ q.dist q.tempip + 1 := by
  have hknown : q.distance q.tempip = q.dist q.tempip := distance_eq ((h.keys _).mpr (.inr hedge.source_mem))
  have hneighbor : q.distance k = q.dist k := distance_eq ((h.keys _).mpr (.inr (hG.dest_mem hedge)))
  unfold Search.relax
  simp only [hknown, hneighbor]
  split
  next hcloser =>
    have hroom : q.dist k ≤ maxweight := by
      by_cases hk : k = source
      · rw [hk, h.zero]
        exact Nat.zero_le _
      · exact (h.far k hk).2
    obtain ⟨hrelaxing, hnearer, heq⟩ := h.precede hG hedge hcloser.1 hcloser.2.le (hcloser.2.trans_le hroom)
    exact ⟨hrelaxing, hnearer, heq.le⟩
  next hcloser =>
    have hle : q.dist k ≤ q.dist q.tempip + 1 := by
      by_contra hlt
      refine hcloser ⟨fun hk => ?_, not_le.mp hlt⟩
      have hlast := h.last k hk
      omega
    split
    next hequal =>
      obtain ⟨heq, hlonger⟩ := hequal
      have hk : k ∉ q.s := by
        intro hk
        have hlast := h.last k hk
        omega
      have hsource : k ≠ source := by
        rintro rfl
        have hzero := h.zero
        omega
      have hroom : q.dist k < maxweight := by
        obtain ⟨u, hu⟩ := Option.isSome_iff_exists.mp ((h.known k).mpr (hG.dest_mem hedge))
        refine h.unreached k u hsource hu fun hbroadcast => ?_
        unfold lives_longer at hlonger
        rw [hu, hbroadcast] at hlonger
        split at hlonger
        next hold _ => exact hlinks k _ _ hold rfl
        · cases hlonger
      obtain ⟨hrelaxing, hnearer, hnew⟩ := h.precede hG hedge hk heq.ge (heq ▸ hroom)
      exact ⟨hrelaxing, hnearer, hnew.le⟩
    · exact ⟨h, .refl, hle⟩

theorem Relaxing.relax_all {t : Time} (h : Relaxing G source q) (hG : Plain G) (hlinks : ProperLinks link_cache)
    (ks : List (Ipv4Address × Nat)) (hks : ∀ x ∈ ks, x.2 = 1 ∧ Edge G q.tempip x.1) :
    Relaxing G source (ks.foldl (Search.relax link_cache t) q) ∧ Nearer q (ks.foldl (Search.relax link_cache t) q) ∧
      ∀ x ∈ ks, (ks.foldl (Search.relax link_cache t) q).dist x.1 ≤ q.dist q.tempip + 1 := by
  induction ks generalizing q with
  | nil => exact ⟨h, .refl, fun x hx => absurd hx List.not_mem_nil⟩
  | cons x ks ih =>
    obtain ⟨⟨hweight, hedge⟩, hrest⟩ := List.forall_mem_cons.mp hks
    obtain ⟨k, w⟩ := x
    simp only at hweight hedge
    subst hweight
    obtain ⟨hfirst, hnearer, hle⟩ := h.relax (t := t) hG hlinks hedge
    rw [← hnearer.chosen] at hrest
    obtain ⟨hlast, hnearer', hall⟩ := ih hfirst hrest
    have htemp : (q.relax link_cache t (k, 1)).dist (q.relax link_cache t (k, 1)).tempip = q.dist q.tempip := by
      rw [hnearer.chosen, hnearer.dist_of_mem h.chosen]
    refine ⟨hlast, hnearer.trans hnearer' h.chosen, fun x hx => ?_⟩
    rcases List.mem_cons.mp hx with rfl | hx
    · exact (hnearer'.dist_le k).trans hle
    · rw [← htemp]
      exact hall x hx

theorem closer_spec (s : List Ipv4Address) (l : List (Ipv4Address × Nat)) (best : Nat × Ipv4Address) :
    (l.foldl (closer s) best = best ∨ (l.foldl (closer s) best).swap ∈ l ∧ (l.foldl (closer s) best).2 ∉ s) ∧
      (l.foldl (closer s) best).1 ≤ best.1 ∧ ∀ x ∈ l, x.1 ∉ s → (l.foldl (closer s) best).1 ≤ x.2 := by
  induction l generalizing best with
  | nil => exact ⟨.inl rfl, le_refl _, fun x hx => absurd hx List.not_mem_nil⟩
  | cons x l ih =>
    rw [List.foldl_cons]
    by_cases hx : x.1 ∉ s ∧ x.2 ≤ best.1
    · have hnext : closer s best x = x.swap := if_pos hx
      rw [hnext]
      obtain ⟨hfound, hle, hall⟩ := ih x.swap
      refine ⟨.inr ?_, hle.trans hx.2, fun y hy hys => ?_⟩
      · rcases hfound with heq | ⟨hmem, hnot⟩
        · rw [heq]
          exact ⟨List.mem_cons_self .., hx.1⟩
        · exact ⟨List.mem_cons_of_mem _ hmem, hnot⟩
      · rcases List.mem_cons.mp hy with rfl | hy
        · exact hle
        · exact hall y hy hys
    · have hnext : closer s best x = best := if_neg hx
      rw [hnext]
      obtain ⟨hfound, hle, hall⟩ := ih best
      refine ⟨hfound.imp_right fun h => ⟨List.mem_cons_of_mem _ h.1, h.2⟩, hle, fun y hy hys => ?_⟩
      rcases List.mem_cons.mp hy with rfl | hy
      · have hfar : best.1 < y.2 := not_le.mp fun hcloser => hx ⟨hys, hcloser⟩
        exact hle.trans hfar.le
      · exact hall y hy hys

/-- A node is chosen if there is one that is not farther away than the start of the search says. -/
theorem closer_found (s : List Ipv4Address) (l : List (Ipv4Address × Nat)) (best : Nat × Ipv4Address)
    (hopen : ∃ x ∈ l, x.1 ∉ s ∧ x.2 ≤ best.1) :
    (l.foldl (closer s) best).swap ∈ l ∧ (l.foldl (closer s) best).2 ∉ s := by
  induction l with
  | nil =>
    obtain ⟨x, hx, -⟩ := hopen
    exact absurd hx List.not_mem_nil
  | cons x l ih =>
    rw [List.foldl_cons]
    by_cases hx : x.1 ∉ s ∧ x.2 ≤ best.1
    · have hnext : closer s best x = x.swap := if_pos hx
      rw [hnext]
      rcases (closer_spec s l x.swap).1 with heq | ⟨hmem, hnot⟩
      · rw [heq]
        exact ⟨List.mem_cons_self .., hx.1⟩
      · exact ⟨List.mem_cons_of_mem _ hmem, hnot⟩
    · have hnext : closer s best x = best := if_neg hx
      rw [hnext]
      obtain ⟨y, hy, hcloser⟩ := hopen
      rcases List.mem_cons.mp hy with rfl | hy
      · exact absurd hcloser hx
      · obtain ⟨hmem, hnot⟩ := ih ⟨y, hy, hcloser⟩
        exact ⟨List.mem_cons_of_mem _ hmem, hnot⟩

theorem Sound.dist_le (h : Sound G source q) (v : Ipv4Address) : q.dist v ≤ maxweight := by
  by_cases hv : v = source
  · rw [hv, h.zero]
    exact Nat.zero_le _
  · exact (h.far v hv).2

theorem Sound.choose_spec (h : Sound G source q) (hopen : ∃ v, (q.d.find v).isSome ∧ v ∉ q.s) :
    (q.d.find q.choose).isSome ∧ q.choose ∉ q.s ∧ ∀ v ∉ q.s, q.dist q.choose ≤ q.dist v := by
  have hentry : ∀ x ∈ q.d.entries, q.dist x.1 = x.2 := by
    intro x hx
    rw [dist, OrderedMap.find_eq_some_iff.mpr hx]
    rfl
  obtain ⟨hmem, hnot⟩ : (q.d.entries.foldl (closer q.s) (maxweight, q.tempip)).swap ∈ q.d.entries ∧ q.choose ∉ q.s := by
    refine closer_found q.s _ _ ?_
    obtain ⟨v, hfound, hv⟩ := hopen
    obtain ⟨n, hn⟩ := Option.isSome_iff_exists.mp hfound
    have hentry' := hentry _ (OrderedMap.find_eq_some_iff.mp hn)
    refine ⟨(v, n), OrderedMap.find_eq_some_iff.mp hn, hv, ?_⟩
    rw [← hentry']
    exact h.dist_le v
  refine ⟨Option.isSome_of_eq_some (OrderedMap.find_eq_some_iff.mpr hmem), hnot, fun v hv => ?_⟩
  have hchosen : q.dist q.choose = (q.d.entries.foldl (closer q.s) (maxweight, q.tempip)).1 := hentry _ hmem
  cases hfind : q.d.find v with
  | none =>
    have hfar : q.dist v = maxweight := by rw [dist, hfind]; rfl
    rw [hfar]
    exact h.dist_le _
  | some n =>
    have hmem' := OrderedMap.find_eq_some_iff.mp hfind
    rw [hchosen, hentry _ hmem']
    exact (closer_spec q.s q.d.entries (maxweight, q.tempip)).2.2 _ hmem' hv

/-- What holds between the rounds. -/
structure Good (G : NetGraph) (source : Ipv4Address) (q : Search) : Prop extends Sound G source q where
  visited : ∀ v ∈ q.s, (q.d.find v).isSome
  nodup : q.s.Nodup
  order : ∀ u ∈ q.s, ∀ v ∉ q.s, q.dist u ≤ q.dist v
  relaxed : ∀ u ∈ q.s, ∀ v, Edge G u v → q.dist v ≤ q.dist u + 1
  touched : q.s = [] ∨ (q.net_graph.find source).isSome

theorem ne_broadcast_iff {ip : Ipv4Address} : ip.is_broadcast = false ↔ ip ≠ Ipv4Address.get_broadcast := by
  rw [Ipv4Address.is_broadcast, beq_eq_false_iff_ne]
  rfl

theorem settle_find (v : Ipv4Address) : q.settle.net_graph.find v =
    if v = q.tempip then some ((q.net_graph.find q.tempip).getD ∅) else q.net_graph.find v :=
  OrderedMap.find_set _ _ _ _

theorem Good.settle (h : Good G source q) (hfound : (q.d.find q.choose).isSome) (hnot : q.choose ∉ q.s) :
    Relaxing G source ({ q with tempip := q.choose } : Search).settle := by
  refine ⟨⟨h.keys, ?_, ?_, ?_, h.zero, h.far, h.known, ?_, h.unreached⟩, List.mem_cons_self .., ?_⟩
  · intro v
    rw [settle_find]
    split
    next heq =>
      subst heq
      exact h.links _
    · exact h.links v
  · intro v hv
    rw [settle_find]
    split
    · rfl
    · exact h.nodes v hv
  · intro v hv
    rw [settle_find] at hv
    split at hv
    next heq =>
      subst heq
      exact (h.keys _).mp hfound
    · exact h.within v hv
  · intro v hv hlt
    obtain ⟨u, hu, hsettled, hedge, hsum⟩ := h.pre v hv hlt
    exact ⟨u, hu, hsettled.imp_right (List.mem_cons_of_mem _), hedge, hsum⟩
  · intro u hu
    rcases List.mem_cons.mp hu with rfl | hu
    · exact le_refl _
    · exact h.order u hu _ hnot

theorem Good.visit {t : Time} (h : Good G source q) (hG : Plain G) (hlinks : ProperLinks link_cache)
    (hsource : source ≠ Ipv4Address.get_broadcast) (hopen : ∃ v, (q.d.find v).isSome ∧ v ∉ q.s) :
    Good G source (q.visit link_cache t) ∧ (q.visit link_cache t).s.length = q.s.length + 1 := by
  obtain ⟨hfound, hnot, hleast⟩ := h.choose_spec hopen
  have hproper : q.choose.is_broadcast = false := by
    rw [ne_broadcast_iff]
    rcases (h.keys _).mp hfound with heq | hmem
    · rwa [heq]
    · exact hG.ne_broadcast hmem
  have hrelaxing := h.settle hfound hnot
  obtain ⟨q₁, hq₁⟩ : ∃ q₁ : Search, q₁ = ({ q with tempip := q.choose } : Search).settle := ⟨_, rfl⟩
  have htemp : q₁.tempip = q.choose := by rw [hq₁]; rfl
  have hdist : ∀ v, q₁.dist v = q.dist v := fun v => by rw [hq₁]; rfl
  have hgraph : (q₁.net_graph.find source).isSome = (decide (source = q.choose) || (q.net_graph.find source).isSome) := by
    rw [hq₁, settle_find]
    by_cases heq : source = q.choose <;> simp [heq]
  rw [← hq₁] at hrelaxing
  have hentries : ∀ x ∈ ((q₁.net_graph.find q₁.tempip).getD ∅).entries, x.2 = 1 ∧ Edge G q₁.tempip x.1 := by
    intro x hx
    have hweight := OrderedMap.find_eq_some_iff.mpr hx
    rw [hrelaxing.links] at hweight
    have hunit := hG.unit _ _ _ hweight
    refine ⟨hunit, ?_⟩
    rw [Edge, hweight, hunit]
  obtain ⟨hafter, hnearer, hneighbors⟩ := hrelaxing.relax_all (t := t) hG hlinks _ hentries
  have hvisit : q.visit link_cache t = ((q₁.net_graph.find q₁.tempip).getD ∅).entries.foldl (relax link_cache t) q₁ := by
    rw [Search.visit]
    simp only [hproper, Bool.false_eq_true, if_false, hq₁]
  rw [hvisit]
  generalize ((q₁.net_graph.find q₁.tempip).getD ∅).entries.foldl (Search.relax link_cache t) q₁ = q₂ at hafter hnearer hneighbors
  have hs : q₂.s = q.choose :: q.s := hnearer.settled.trans (by rw [hq₁]; rfl)
  have hsettled : ∀ u ∈ q.choose :: q.s, q₂.dist u = q.dist u := by
    intro u hu
    rw [hnearer.dist_of_mem (hnearer.settled ▸ hs ▸ hu), hdist]
  refine ⟨⟨hafter.toSound, ?_, ?_, ?_, ?_, .inr ?_⟩, by rw [hs, List.length_cons]⟩
  · intro v hv
    rw [hs] at hv
    rw [hafter.keys, ← h.keys]
    rcases List.mem_cons.mp hv with rfl | hv
    · exact hfound
    · exact h.visited v hv
  · rw [hs]
    exact List.nodup_cons.mpr ⟨hnot, h.nodup⟩
  · intro u hu v hv
    rw [hs] at hu hv
    obtain ⟨-, hv'⟩ := not_or.mp (mt List.mem_cons.mpr hv)
    have hchosen : q.dist u ≤ q.dist q.choose := by
      rcases List.mem_cons.mp hu with rfl | hu
      · exact le_refl _
      · exact h.order u hu _ hnot
    rw [hsettled u hu]
    rcases hnearer.dist v with heq | ⟨-, heq, -⟩
    · rw [heq, hdist]
      exact hchosen.trans (hleast v hv')
    · rw [heq, htemp, hdist]
      omega
  · intro u hu v hedge
    rw [hs] at hu
    rw [hsettled u hu]
    rcases List.mem_cons.mp hu with rfl | hu
    · have hedge' : ((q₁.net_graph.find q₁.tempip).getD ∅).find v = some 1 := by
        rw [hrelaxing.links, htemp]
        exact hedge
      have hle := hneighbors (v, 1) (OrderedMap.find_eq_some_iff.mp hedge')
      rwa [htemp, hdist] at hle
    · have hle := hnearer.dist_le v
      rw [hdist] at hle
      exact hle.trans (h.relaxed u hu v hedge)
  · rw [hnearer.graph, hgraph, Bool.or_eq_true, decide_eq_true_iff]
    refine h.touched.imp (fun hempty => ?_) id
    -- The first node that is chosen is the source.
    by_contra hother
    have hpos := (h.far q.choose (Ne.symm hother)).1
    have hle := hleast source (by rw [hempty]; exact List.not_mem_nil)
    rw [h.zero] at hle
    omega

theorem initial_good {z : Ipv4Address} (hG : Plain G) : Good G z (initial G z) := by
  have hdist : ∀ v, (initial G z).dist v = if v = z then 0 else
      ((G.find v).map fun links => (links.find z).getD maxweight).getD maxweight := by
    intro v
    rw [dist, initial]
    simp only [OrderedMap.find_set, OrderedMap.find_map]
    split <;> rfl
  have hpre : ∀ v, (initial G z).pre.find v =
      (G.find v).map fun links => if (links.find z).isSome then z else Ipv4Address.get_broadcast :=
    fun v => OrderedMap.find_map _ _ _
  have hzero : (initial G z).dist z = 0 := by rw [hdist, if_pos rfl]
  -- A neighbor of the z has estimate one, any other node the greatest weight.
  have hother : ∀ v, v ≠ z → Edge G z v ∧ (initial G z).dist v = 1 ∧ (initial G z).pre.find v = some z ∨
      (initial G z).dist v = maxweight ∧ ∀ u, (initial G z).pre.find v = some u → u = Ipv4Address.get_broadcast := by
    intro v hv
    rw [hdist, if_neg hv, hpre]
    cases hlinks : G.find v with
    | none => exact .inr ⟨rfl, fun u hu => by cases hu⟩
    | some links =>
      cases hweight : links.find z with
      | none =>
        refine .inr ⟨by simp [hweight], fun u hu => ?_⟩
        simpa [hweight] using hu.symm
      | some w =>
        have hw : w = 1 := hG.unit v z w (by rw [hlinks]; exact hweight)
        subst hw
        refine .inl ⟨hG.symm v z (by rw [Edge, hlinks]; exact hweight), ?_, ?_⟩ <;> simp [hweight]
  refine ⟨⟨?_, fun _ => rfl, fun _ => id, fun _ => .inr, hzero, ?_, ?_, ?_, ?_⟩, ?_, .nil, ?_, ?_, .inl rfl⟩
  · intro v
    change (((G.map _).set z 0).find v).isSome ↔ _
    rw [OrderedMap.find_set]
    split
    next heq => exact iff_of_true rfl (.inl heq)
    next hne => simp [hne]
  · intro v hv
    rcases hother v hv with ⟨-, heq, -⟩ | ⟨heq, -⟩ <;> rw [heq] <;> decide
  · intro v
    rw [hpre, Option.isSome_map]
  · intro v hv hlt
    rcases hother v hv with ⟨hedge, heq, hpre⟩ | ⟨heq, -⟩
    · exact ⟨z, hpre, .inl rfl, hedge, by rw [heq, hzero]⟩
    · omega
  · intro v u hv hu hne
    rcases hother v hv with ⟨-, heq, -⟩ | ⟨-, hall⟩
    · rw [heq]
      decide
    · exact absurd (hall u hu) hne
  all_goals exact fun v hv => absurd hv List.not_mem_nil

theorem Good.rounds {t : Time} (h : Good G source q) (hG : Plain G) (hlinks : ProperLinks link_cache)
    (hsource : source ≠ Ipv4Address.get_broadcast) (bound : Nat) (hbound : G.entries.length + 2 ≤ q.s.length + bound) :
    ∃ q', rounds link_cache t bound q.s.length q = some q' ∧ Good G source q' ∧ ∀ u, (G.find u).isSome → u ∈ q'.s := by
  induction bound generalizing q with
  | zero =>
    have hsub : q.s ⊆ source :: G.keys := by
      intro v hv
      rcases (h.keys v).mp (h.visited v hv) with heq | hmem
      · exact List.mem_cons.mpr (.inl heq)
      · exact List.mem_cons_of_mem _ (OrderedMap.mem_keys.mpr hmem)
    have hle := (h.nodup.subperm hsub).length_le
    rw [List.length_cons, OrderedMap.length_keys] at hle
    omega
  | succ bound ih =>
    rw [Search.rounds]
    by_cases hmore : q.s.length < q.net_graph.entries.length
    · have hopen : ∃ v, (q.d.find v).isSome ∧ v ∉ q.s := by
        by_contra hnone
        have hsub : q.net_graph.keys ⊆ q.s := by
          intro v hv
          by_contra hnot
          exact hnone ⟨v, (h.keys v).mpr (h.within v (OrderedMap.mem_keys.mp hv)), hnot⟩
        have hle := (q.net_graph.nodup_keys.subperm hsub).length_le
        rw [OrderedMap.length_keys] at hle
        omega
      obtain ⟨hgood, hlength⟩ := h.visit (t := t) hG hlinks hsource hopen
      rw [if_pos hmore, ← hlength]
      exact ih hgood (by omega)
    · rw [if_neg hmore]
      refine ⟨q, rfl, h, fun u hu => ?_⟩
      have hmem : u ∈ q.net_graph.keys := OrderedMap.mem_keys.mpr (h.nodes u hu)
      rcases h.touched with hempty | htouched
      · have hpos := List.length_pos_of_mem hmem
        rw [OrderedMap.length_keys] at hpos
        rw [hempty] at hmore
        exact absurd hpos hmore
      · have hsub : q.s ⊆ q.net_graph.keys := by
          intro v hv
          rcases (h.keys v).mp (h.visited v hv) with heq | hnode
          · exact OrderedMap.mem_keys.mpr (heq ▸ htouched)
          · exact OrderedMap.mem_keys.mpr (h.nodes v hnode)
        have hperm := (h.nodup.subperm hsub).perm_of_length_le (by rw [OrderedMap.length_keys]; omega)
        exact hperm.mem_iff.mpr hmem

theorem Sound.follow_spec (h : Sound G source q) (bound : Nat) (hreached : q.dist v < maxweight) (hbound : q.dist v < bound) :
    ∃ path, follow q.pre source bound v = some path ∧ Route (fun a b => Edge G b a) v source path ∧
      path.IsChain (fun a b => q.dist a = q.dist b + 1) ∧ path.length = q.dist v + 1 := by
  induction bound generalizing v with
  | zero => exact absurd hbound (Nat.not_lt_zero _)
  | succ bound ih =>
    rw [follow]
    by_cases hv : v = source
    · rw [if_pos hv]
      subst hv
      exact ⟨[v], rfl, .single, List.isChain_singleton v, by rw [h.zero]; rfl⟩
    · rw [if_neg hv]
      obtain ⟨u, hu, -, hedge, hsum⟩ := h.pre v hv hreached
      obtain ⟨path, hpath, hroute, hlabels, hlength⟩ := ih (v := u) (by omega) (by omega)
      refine ⟨v :: path, by rw [hu, Option.getD_some, hpath]; rfl, hroute.cons hedge, ?_, by rw [List.length_cons, hlength, hsum]⟩
      cases path with
      | nil => cases hroute.starts
      | cons x path =>
        obtain rfl := Option.some.inj hroute.starts
        exact List.isChain_cons_cons.mpr ⟨hsum, hlabels⟩

def Listed (source : Ipv4Address) (l : List (Ipv4Address × Ipv4Address)) (v : Ipv4Address) : Prop :=
  v ≠ source ∧ ∃ u, (v, u) ∈ l ∧ u ≠ Ipv4Address.get_broadcast

theorem listed_cons {i : Ipv4Address × Ipv4Address} {l : List (Ipv4Address × Ipv4Address)} :
    Listed source (i :: l) v ↔ (v = i.1 ∧ i.2.is_broadcast = false ∧ i.1 ≠ source) ∨ Listed source l v := by
  constructor
  · rintro ⟨hv, u, hmem, hu⟩
    rcases List.mem_cons.mp hmem with rfl | hmem
    · exact .inl ⟨rfl, ne_broadcast_iff.mpr hu, hv⟩
    · exact .inr ⟨hv, u, hmem, hu⟩
  · rintro (⟨rfl, hu, hv⟩ | ⟨hv, u, hmem, hu⟩)
    · exact ⟨hv, i.2, List.mem_cons_self .., ne_broadcast_iff.mp hu⟩
    · exact ⟨hv, u, List.mem_cons_of_mem _ hmem, hu⟩

theorem add_best_spec (pre : OrderedMap Ipv4Address Ipv4Address) (l : List (Ipv4Address × Ipv4Address))
    (table : OrderedMap Ipv4Address (List Ipv4Address))
    (hfollow : ∀ v, Listed source l v → (follow pre source (maxweight + 1) v).isSome) :
    ∃ table', l.foldlM (add_best pre source) table = some table' ∧ ∀ v,
      (Listed source l v → table'.find v = (follow pre source (maxweight + 1) v).map List.reverse) ∧
      (¬ Listed source l v → table'.find v = table.find v) := by
  induction l generalizing table with
  | nil =>
    refine ⟨table, rfl, fun v => ⟨?_, fun _ => rfl⟩⟩
    rintro ⟨-, u, hu, -⟩
    exact absurd hu List.not_mem_nil
  | cons i l ih =>
    have hrest : ∀ v, Listed source l v → (follow pre source (maxweight + 1) v).isSome :=
      fun v hv => hfollow v (listed_cons.mpr (.inr hv))
    rw [List.foldlM_cons, add_best]
    by_cases hi : i.2.is_broadcast = false ∧ i.1 ≠ source
    · obtain ⟨route, hroute⟩ := Option.isSome_iff_exists.mp (hfollow i.1 (listed_cons.mpr (.inl ⟨rfl, hi⟩)))
      obtain ⟨table', htable', hfind⟩ := ih (table.set i.1 route.reverse) hrest
      refine ⟨table', ?_, fun v => ⟨fun hv => ?_, fun hv => ?_⟩⟩
      · rw [if_pos hi, hroute]
        exact htable'
      · by_cases hlater : Listed source l v
        · exact (hfind v).1 hlater
        · obtain ⟨rfl, -⟩ := (listed_cons.mp hv).resolve_right hlater
          rw [(hfind _).2 hlater, OrderedMap.find_set_self, hroute]
          rfl
      · obtain ⟨hne, hlater⟩ := not_or.mp (mt listed_cons.mpr hv)
        rw [(hfind v).2 hlater, OrderedMap.find_set_of_ne]
        exact fun heq => hne ⟨heq, hi⟩
    · obtain ⟨table', htable', hfind⟩ := ih table hrest
      have hsame : ∀ v, Listed source (i :: l) v ↔ Listed source l v :=
        fun v => listed_cons.trans (or_iff_right fun h => hi h.2)
      refine ⟨table', ?_, fun v => ?_⟩
      · rw [if_neg hi]
        exact htable'
      · rw [hsame]
        exact hfind v

end Search

/-- What the best route table says: to the other nodes that are near enough, a shortest route. -/
structure Best (G : NetGraph) (source : Ipv4Address) (table : OrderedMap Ipv4Address (List Ipv4Address)) : Prop where
  shortest : ∀ v path, table.find v = some path → v ≠ source ∧ Shortest (Edge G) source v path ∧ path.Nodup
  complete : ∀ v path, v ≠ source → Route (Edge G) source v path → path.length ≤ maxweight → (table.find v).isSome

theorem rebuild_spec {C : OrderedMap Link Time} {t : Time} (hG : Plain G) (hlinks : ProperLinks C) (hsource : source ≠ Ipv4Address.get_broadcast) :
    ∃ G' table, rebuild C t G source = some (G', table) ∧ (∀ u v, Edge G' u v ↔ Edge G u v) ∧ Best G source table := by
  obtain ⟨q, hq, hgood, hall⟩ := (Search.initial_good (z := source) hG).rounds (t := t) hG hlinks hsource
    (G.entries.length + 2) (by omega)
  have hrelaxed : ShortestRoute.Relaxed (Edge G) q.dist := fun u v hedge => hgood.relaxed u (hall u hedge.source_mem) v hedge
  have hlisted : ∀ v, Search.Listed source q.pre.entries v ↔ v ≠ source ∧ q.dist v < maxweight := by
    intro v
    refine and_congr_right fun hv => ⟨?_, fun hlt => ?_⟩
    · rintro ⟨u, hu, hne⟩
      exact hgood.unreached v u hv (OrderedMap.find_eq_some_iff.mpr hu) hne
    · obtain ⟨u, hu, -, hedge, -⟩ := hgood.pre v hv hlt
      exact ⟨u, OrderedMap.find_eq_some_iff.mp hu, hG.ne_broadcast hedge.source_mem⟩
  have hfollow : ∀ v, Search.Listed source q.pre.entries v → (Search.follow q.pre source (maxweight + 1) v).isSome := by
    intro v hv
    obtain ⟨-, hlt⟩ := (hlisted v).mp hv
    obtain ⟨path, hpath, -⟩ := hgood.follow_spec (maxweight + 1) hlt (by omega)
    exact Option.isSome_of_eq_some hpath
  obtain ⟨table, htable, hfind⟩ := Search.add_best_spec q.pre q.pre.entries ∅ hfollow
  refine ⟨q.net_graph, table, ?_, fun u v => ?_, fun v path hpath => ?_, fun v path hv hroute hlength => ?_⟩
  · rw [rebuild, show Search.rounds C t (G.entries.length + 2) 0 (Search.initial G source) = some q from hq,
      Option.bind_some, htable]
    rfl
  · rw [Edge, Edge, hgood.links]
  · have hv : Search.Listed source q.pre.entries v := by
      by_contra hnot
      rw [(hfind v).2 hnot] at hpath
      cases hpath
    obtain ⟨hne, hlt⟩ := (hlisted v).mp hv
    obtain ⟨back, hback, hroute, hlabels, hlength⟩ := hgood.follow_spec (maxweight + 1) hlt (by omega)
    rw [(hfind v).1 hv, hback] at hpath
    obtain rfl := Option.some.inj hpath
    refine ⟨hne, hrelaxed.shortest hroute.reverse ?_ hgood.zero, ?_⟩
    · rw [List.length_reverse, hlength]
    · refine ShortestRoute.nodup_of_labels (m := q.dist) ?_
      exact List.isChain_reverse.mpr hlabels
  · have hle := hrelaxed.le_length hroute
    rw [hgood.zero] at hle
    have hv : Search.Listed source q.pre.entries v := (hlisted v).mpr ⟨hv, by omega⟩
    rw [(hfind v).1 hv, Option.isSome_map]
    exact hfollow v hv

end Ns3.Dsr
