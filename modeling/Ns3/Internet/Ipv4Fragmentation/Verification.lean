import Ns3.Internet.Ipv4Fragmentation.Reassembly

namespace Ns3.Ipv4L3Protocol

variable {payload : List UInt8} {header h h' : FragmentHeader} {x y : PayloadHeaderPair}
  {calls : List PayloadHeaderPair} {m : MapFragments}

theorem fragment_key_eq_iff : fragment_key h = fragment_key h' ↔ h.same_datagram h' = true := by
  have hshift : ∀ a b n : ℕ, b < 2 ^ n → a <<< n ||| b = a * 2 ^ n + b := fun a b n hb => by
    rw [← Nat.shiftLeft_add_eq_or_of_lt hb, Nat.shiftLeft_eq]
  have hd := h.destination.toNat_lt
  have hd' := h'.destination.toNat_lt
  have hp := h.protocol.toNat_lt
  have hp' := h'.protocol.toNat_lt
  rw [fragment_key, fragment_key, FragmentHeader.same_datagram_iff, hshift _ _ 32 hd, hshift _ _ 32 hd',
    hshift _ _ 16 (by omega), hshift _ _ 16 (by omega), Prod.mk.injEq, ← UInt32.toNat_inj, ← UInt32.toNat_inj,
    ← UInt16.toNat_inj, ← UInt8.toNat_inj]
  omega

theorem own_append : own header (calls ++ [y]) = own header calls ++ own header [y] := List.filter_append ..

theorem own_of_same (hy : y.2.same_datagram header = true) : own header [y] = [y] := by
  simp [own, hy]

theorem own_of_different (hy : ¬ y.2.same_datagram header = true) : own header [y] = [] := by
  simp [own, hy]

theorem run_append : run m (calls ++ [y]) = (process_fragment (run m calls) y.1 y.2).1 := by
  rw [run, List.foldl_append, List.foldl_cons, List.foldl_nil, run]

theorem process_fragment_other (hy : ¬ y.2.same_datagram header = true) :
    (process_fragment m y.1 y.2).1 (fragment_key header) = m (fragment_key header) := by
  have hkey : fragment_key header ≠ fragment_key y.2 := by
    intro h
    exact hy (fragment_key_eq_iff.mp h.symm)
  obtain ⟨entry, hentry⟩ : ∃ entry, (process_fragment m y.1 y.2).1 = Function.update m (fragment_key y.2) entry := by
    rw [process_fragment]
    split <;> exact ⟨_, rfl⟩
  rw [hentry, Function.update_of_ne hkey]

theorem process_fragment_own {arrivals : List PayloadHeaderPair} (hsame : y.2.same_datagram header = true)
    (hm : Holds ((m (fragment_key header)).getD {}) arrivals) : ∃ f, Holds f (arrivals ++ [y]) ∧
      process_fragment m y.1 y.2 =
        if f.is_entire then (Function.update m (fragment_key header) none, f.get_packet, true)
        else (Function.update m (fragment_key header) (some f), y.1, false) := by
  refine ⟨_, hm.add y, ?_⟩
  rw [process_fragment, fragment_key_eq_iff.mpr hsame]

theorem run_holds (hpayload : payload.length ≤ 65515) (hempty : m (fragment_key header) = none)
    (hcalls : ∀ y ∈ calls, IsFragment payload header y ∨ ¬ y.2.same_datagram header = true)
    (hbefore : ¬ Complete payload (own header calls)) :
    Holds ((run m calls (fragment_key header)).getD {}) (own header calls) := by
  induction calls using List.reverseRecOn with
  | nil =>
    rw [run, List.foldl_nil, hempty]
    exact .empty
  | append_singleton calls y ih =>
    have hpre : ¬ Complete payload (own header calls) := fun h =>
      hbefore (h.mono fun x hx => own_append ▸ List.mem_append_left _ hx)
    have hm := ih (fun z hz => hcalls z (List.mem_append_left _ hz)) hpre
    rw [run_append]
    obtain hy | hy := hcalls y (by simp)
    · have hown : own header (calls ++ [y]) = own header calls ++ [y] := by rw [own_append, own_of_same hy.same]
      obtain ⟨f, hf, hstep⟩ := process_fragment_own hy.same hm
      have hfragments : ∀ x ∈ own header calls ++ [y], IsFragment payload header x := by
        intro x hx
        rw [← hown] at hx
        obtain ⟨hx, hsame⟩ := List.mem_filter.mp hx
        exact (hcalls x hx).resolve_right fun h => h hsame
      have hpart : ¬ f.is_entire = true := by
        intro h
        exact hbefore (hown ▸ ((hf.is_entire_iff hpayload hfragments).mp h).1)
      rw [hstep, if_neg hpart, hown]
      simpa only [Function.update_self, Option.getD_some] using hf
    · rw [own_append, own_of_different hy, List.append_nil, process_fragment_other hy]
      exact hm

theorem process_fragment_result (hpayload : payload.length ≤ 65515) (hempty : m (fragment_key header) = none)
    (hcalls : ∀ y ∈ calls, IsFragment payload header y ∨ ¬ y.2.same_datagram header = true)
    (hx : IsFragment payload header x) (hbefore : ¬ Complete payload (own header calls)) :
    ((process_fragment (run m calls) x.1 x.2).2.2 = true ↔
      Complete payload (own header (calls ++ [x])) ∧ ends_with_last (own header (calls ++ [x])) = true) ∧
    ((process_fragment (run m calls) x.1 x.2).2.2 = true →
      (process_fragment (run m calls) x.1 x.2).2.1 = payload) := by
  have hown : own header (calls ++ [x]) = own header calls ++ [x] := by rw [own_append, own_of_same hx.same]
  have hfragments : ∀ z ∈ own header calls ++ [x], IsFragment payload header z := by
    intro z hz
    obtain hz | hz := List.mem_append.mp hz
    · obtain ⟨hz, hsame⟩ := List.mem_filter.mp hz
      exact (hcalls z hz).resolve_right fun h => h hsame
    · rw [List.mem_singleton.mp hz]
      exact hx
  obtain ⟨f, hf, hstep⟩ := process_fragment_own hx.same (run_holds hpayload hempty hcalls hbefore)
  have hentire := hf.is_entire_iff hpayload hfragments
  rw [hstep, hown, ← hentire]
  by_cases h : f.is_entire = true
  · simp [h, hf.get_packet_eq hpayload hfragments h]
  · simp [h]

/-- The call that completes a datagram gives out its payload, and no earlier one gives out anything,
exactly if the fragment with the largest offset, the latest of those, is a last one. -/
theorem reassembled_iff (hpayload : payload.length ≤ 65515) (hoffset : header.fragment_offset = 0)
    (hlast : header.more_fragments = false) (hempty : m (fragment_key header) = none)
    (hcalls : ∀ y ∈ calls, Chained payload header y ∨ ¬ y.2.same_datagram header = true)
    (hx : Chained payload header x) (hbefore : ¬ Complete payload (own header calls))
    (hcomplete : Complete payload (own header (calls ++ [x]))) :
    ((∃ map, process_fragment (run m calls) x.1 x.2 = (map, payload, true)) ∧
      ∀ earlier y rest, calls = earlier ++ y :: rest → y.2.same_datagram header = true →
        (process_fragment (run m earlier) y.1 y.2).2.2 = false) ↔
    ends_with_last (own header (calls ++ [x])) = true := by
  have hfragments : ∀ y ∈ calls, IsFragment payload header y ∨ ¬ y.2.same_datagram header = true := fun y hy =>
    (hcalls y hy).imp_left fun h => h.isFragment hpayload hoffset hlast
  have hearlier : ∀ earlier y rest, calls = earlier ++ y :: rest → y.2.same_datagram header = true →
      (process_fragment (run m earlier) y.1 y.2).2.2 = false := by
    rintro earlier y rest rfl hsame
    have hpre : ∀ z ∈ earlier ++ [y], z ∈ earlier ++ y :: rest := by simp +contextual [or_imp]
    have hbefore' : ¬ Complete payload (own header (earlier ++ [y])) := fun h =>
      hbefore (h.mono fun z hz => List.mem_filter.mpr
        ⟨hpre z (List.mem_filter.mp hz).1, (List.mem_filter.mp hz).2⟩)
    have hbefore : ¬ Complete payload (own header earlier) := fun h =>
      hbefore' (h.mono fun z hz => own_append ▸ List.mem_append_left _ hz)
    have hy := (hfragments y (by simp)).resolve_right fun h => h hsame
    have hresult := (process_fragment_result hpayload hempty
      (fun z hz => hfragments z (List.mem_append_left _ hz)) hy hbefore).1
    rw [← Bool.not_eq_true, hresult]
    exact fun h => hbefore' h.1
  obtain ⟨hresult, hdata⟩ := process_fragment_result hpayload hempty hfragments
    (hx.isFragment hpayload hoffset hlast) hbefore
  constructor
  · rintro ⟨⟨map, heq⟩, _⟩
    rw [heq] at hresult
    exact (hresult.mp rfl).2
  · intro hends
    have htrue := hresult.mpr ⟨hcomplete, hends⟩
    refine ⟨⟨(process_fragment (run m calls) x.1 x.2).1, ?_⟩, hearlier⟩
    exact Prod.ext rfl (Prod.ext (hdata htrue) htrue)

section Samples

def samplePayload : List UInt8 := (List.range 150).map Nat.toUInt8

def sampleHeader : FragmentHeader where
  source := 0x0a000001
  destination := 0x0a000002
  ttl := 64
  protocol := 17
  identification := 7

def sampleFragments (mtu : ℕ) : List PayloadHeaderPair :=
  (do_fragmentation samplePayload sampleHeader mtu false).getD []

theorem sample_chained {mtu : ℕ} (hmtu : 68 ≤ mtu) (hword : mtu < 2 ^ 32) (h : x ∈ sampleFragments mtu) :
    Chained samplePayload sampleHeader x := by
  have hwhole : IsFragment samplePayload sampleHeader (samplePayload, sampleHeader) :=
    Chained.whole.isFragment (by decide +kernel) rfl rfl
  obtain ⟨fragments, hfragments, _⟩ := do_fragmentation_spec hwhole (by decide +kernel) hmtu hword
  rw [sampleFragments, hfragments, Option.getD_some] at h
  exact .fragment .whole hmtu hword hfragments h

def sampleArrivals : List PayloadHeaderPair :=
  (sampleFragments 100).drop 1 ++ ((sampleFragments 68).drop 2).take 1

def sampleLast : PayloadHeaderPair := (sampleFragments 100).headD (samplePayload, sampleHeader)

theorem reassembled_sample :
    (∃ map, process_fragment (run (fun _ => none) ((sampleFragments 100).drop 1)) sampleLast.1 sampleLast.2 =
        (map, samplePayload, true)) ∧
      ∀ earlier y rest, (sampleFragments 100).drop 1 = earlier ++ y :: rest →
        y.2.same_datagram sampleHeader = true →
        (process_fragment (run (fun _ => none) earlier) y.1 y.2).2.2 = false :=
  (reassembled_iff (by decide +kernel) rfl rfl rfl
    (fun y hy => .inl (sample_chained (by decide) (by decide) (List.mem_of_mem_drop hy)))
    (sample_chained (by decide : 68 ≤ 100) (by decide) (by decide +kernel)) (by decide +kernel)
    (by decide +kernel)).mpr (by decide +kernel)

/-- The middle of one copy arrives after the end of another one: with the rest everything has arrived, and the
datagram is not put together. -/
theorem complete_datagram_kept :
    (∀ y ∈ sampleArrivals ++ [sampleLast], Chained samplePayload sampleHeader y) ∧
      ¬ Complete samplePayload (own sampleHeader sampleArrivals) ∧
      Complete samplePayload (own sampleHeader (sampleArrivals ++ [sampleLast])) ∧
      (process_fragment (run (fun _ => none) sampleArrivals) sampleLast.1 sampleLast.2).2.2 = false := by
  refine ⟨fun y hy => ?_, by decide +kernel, by decide +kernel, by decide +kernel⟩
  obtain hy | hy := List.mem_append.mp hy
  · obtain hy | hy := List.mem_append.mp hy
    · exact sample_chained (by decide) (by decide) (List.mem_of_mem_drop hy)
    · exact sample_chained (by decide) (by decide) (List.mem_of_mem_drop (List.mem_of_mem_take hy))
  · rw [List.mem_singleton.mp hy]
    exact sample_chained (by decide : 68 ≤ 100) (by decide) (by decide +kernel)

end Samples

end Ns3.Ipv4L3Protocol
