import Ns3.Network.Packet.RoundTrip

namespace Ns3

open ByteFormat

namespace Packet

/-- A packet holds what another one does: its content, uid, nix vector and packet tags, and on
every range of bytes its byte tags. -/
structure Same (p p' : Packet) : Prop where
  content : p'.m_buffer.bytes = p.m_buffer.bytes
  uid : p'.m_metadata = p.m_metadata
  nix_vector : p'.m_nixVector = p.m_nixVector
  packet_tags : p'.m_packetTagList = p.m_packetTagList
  byte_tags : ∀ lo hi : Int32, 0 ≤ lo → lo < hi →
    p'.m_byteTagList.begin_ lo hi = p.m_byteTagList.begin_ lo hi

/-- With room for the serialized size a packet survives `Serialize` and `Deserialize`, whatever else the
buffer holds; with less room `Serialize` returns 0. Nothing is written beyond the room. -/
def Serializes (m : IidManager) (p : Packet) (maxSize : ℕ) : Prop :=
  if p.get_serialized_size ≤ maxSize then
    ∃ o, p.serialize m maxSize = .ok o ∧ Within maxSize o.cells ∧
      ∀ bytes rest, Fills bytes o.cells →
        ∃ p', (deserialize m (UInt32.ofNat p.get_serialized_size)).run (bytes ++ rest) = some (p', rest) ∧
          p.Same p'
  else ∃ cells, p.serialize m maxSize = .error cells ∧ Within maxSize cells

/-- The nix vector is one that the format keeps, and a bound that is too small one that the
capacity checks find too small. -/
def Keeps (p : Packet) (maxSize : ℕ) : Prop :=
  if p.get_serialized_size ≤ maxSize then ∀ nix, p.m_nixVector = some nix → nix.Compact
  else p.CutsOff maxSize

theorem same_normalized (p : Packet) : p.Same p.normalized :=
  ⟨rfl, rfl, rfl, rfl, fun _ _ hlo hhi => p.m_byteTagList.begin_begin_all hlo hhi⟩

theorem length_cells (m : IidManager) (p : Packet) : (p.cells m).length = p.get_serialized_size := by
  have hfirst := length_first p m
  have h := prefix_cells_append (p.sections m) (j := 1) (k := 5) (by omega)
  rw [get_serialized_size_eq, ← hfirst, cells, sections]
  simp only [List.map_cons, List.map_nil, List.flatten_cons, List.flatten_nil, List.length_append,
    length_word, ByteTagList.length_cells, PacketTag.length_cells, BufferContent.length_cells,
    List.length_nil, prefix_cells, List.take_succ_cons, List.take_zero]
  have hmeta : p.m_metadata.cells.length = 8 := rfl
  omega

theorem counted_le (p : Packet) : p.counted 5 ≤ p.get_serialized_size := by
  rw [get_serialized_size_eq, counted, layout, nix_section, nix_area]
  cases p.m_nixVector <;> simp <;> omega

theorem fills_getD (cells : List Cell) : Fills (cells.map fun c => c.getD 0) cells := by
  induction cells with
  | nil => exact .nil
  | cons c cells ih =>
    refine .cons ?_ ih
    rintro b hb
    cases hb
    rfl

theorem compact_of_deserialize {m : IidManager} {size : UInt32} {l rest : List UInt8} {p : Packet}
    (h : (deserialize m size).run l = some (p, rest)) (nix : NixVector) (hnix : p.m_nixVector = some nix) :
    nix.Compact := by
  obtain ⟨nixSize, l₁, -, h⟩ := bind_eq_some h
  obtain ⟨_, l₂, -, h⟩ := bind_eq_some h
  obtain ⟨nix', l₃, hnix', h⟩ := bind_eq_some h
  iterate 13 obtain ⟨_, _, -, h⟩ := bind_eq_some h
  cases h
  subst hnix
  rw [read_nix] at hnix'
  split at hnix'
  · obtain ⟨v, l₄, hv, hsome⟩ := bind_eq_some hnix'
    cases hsome
    obtain ⟨x, hx, hpair⟩ := Option.map_eq_some_iff.mp hv
    cases hpair
    exact NixVector.compact_of_deserialize hx
  · cases hnix'

/-- With a bound on the counted sizes only, `Serialize` keeps to its room exactly when the checks
cut it off in time. -/
theorem cuts_off_iff (m : IidManager) (p : Packet) (maxSize : ℕ) :
    (∃ cells, p.serialize m maxSize = .error cells ∧ Within maxSize cells) ↔ p.CutsOff maxSize := by
  have hspec := put_sections_spec maxSize (p.sections m) ⟨[], 0⟩ (Nat.zero_le _)
  have hlength : (p.sections m).length = 5 := rfl
  rw [hlength] at hspec
  simp only [Nat.zero_add, List.nil_append, prefix_size_sections, ← serialize_eq_put_sections] at hspec
  rcases hspec with ⟨hle, hok⟩ | ⟨k, hk, hle, hlt, herror⟩
  · rw [hok]
    constructor
    · rintro ⟨cells, h, -⟩
      cases h
    · rintro ⟨h, -⟩
      omega
  · rw [herror]
    constructor
    · rintro ⟨cells, h, hwithin⟩
      cases h
      have hmono := prefix_size_mono (p.sections m) (show k + 1 ≤ 5 by omega)
      rw [prefix_size_sections, prefix_size_sections] at hmono
      refine ⟨by omega, ?_⟩
      intro i hi hcount
      have hik : i + 1 ≤ k := by
        by_contra hnot
        have := prefix_size_mono (p.sections m) (show k + 1 ≤ i + 1 by omega)
        rw [prefix_size_sections, prefix_size_sections] at this
        omega
      obtain ⟨rest, hrest⟩ := prefix_cells_append (p.sections m) hik
      rw [hrest] at hwithin
      rw [← written_end_sections m p hi]
      exact within_iff.mp hwithin.of_append
    · rintro ⟨-, hfits⟩
      refine ⟨_, rfl, ?_⟩
      cases k with
      | zero => exact fun i _ => rfl
      | succ k =>
        rw [within_iff, written_end_sections m p (by omega)]
        exact hfits k (by omega) hle

/-- A packet with registered tag types serializes as it should, with a given room, exactly when
the format keeps its nix vector and the capacity checks respect the room. -/
theorem serializes_iff {m : IidManager} {p : Packet} (hreg : p.Registered m)
    (hsize : p.get_serialized_size < 2 ^ 32) (maxSize : ℕ) : p.Serializes m maxSize ↔ p.Keeps maxSize := by
  rw [Serializes, Keeps]
  split
  next hle =>
    have hspec := put_sections_spec maxSize (p.sections m) ⟨[], 0⟩ (Nat.zero_le _)
    have hlength : (p.sections m).length = 5 := rfl
    rw [hlength] at hspec
    simp only [Nat.zero_add, List.nil_append, prefix_size_sections, ← serialize_eq_put_sections] at hspec
    have hcount := p.counted_le
    obtain ⟨-, hok⟩ := hspec.resolve_right fun ⟨k, hk, _, hlt, _⟩ => by
      have hmono := prefix_size_mono (p.sections m) (show k + 1 ≤ 5 by omega)
      rw [prefix_size_sections, prefix_size_sections] at hmono
      omega
    have hcells : prefix_cells (p.sections m) 5 = p.cells m := rfl
    constructor
    · rintro ⟨o, ho, -, hread⟩ nix hnix
      obtain ⟨p', hp', hsame⟩ := hread _ [] (fills_getD o.cells)
      exact compact_of_deserialize hp' nix (hsame.nix_vector.trans hnix)
    · intro hcompact
      refine ⟨_, hok, ?_, ?_⟩
      · intro i hi
        have hlen := p.length_cells m
        simp only [hcells]
        rw [List.getElem?_eq_none (by omega)]
        rfl
      · intro bytes rest hfill
        rw [hcells] at hfill
        exact ⟨p.normalized, reads_cells hreg hcompact hsize bytes hfill rest, p.same_normalized⟩
  next hlt => exact cuts_off_iff m p maxSize

/-- A register with one type, and a packet with tags of that type and a nix vector of three bits. -/
def oneType : IidManager := ⟨[7], by decide, by decide⟩

def tagged : Packet where
  m_buffer := ⟨[1, 2], 3, [4], by decide⟩
  m_byteTagList := ⟨[⟨1, [1, 2, 3], 0, 2⟩], 0⟩
  m_packetTagList := [⟨1, [9]⟩]
  m_metadata := 5
  m_nixVector := some ⟨[5], 0, 3, 0⟩

theorem tagged_serializes : tagged.Serializes oneType 200 := by
  refine (serializes_iff (m := oneType) (p := tagged) ⟨?_, ?_⟩ (by decide +kernel) 200).mpr ?_
  · simp [tagged, oneType, IidManager.Registered]
  · simp [tagged, oneType, IidManager.Registered]
  · rw [Keeps, if_pos (by decide +kernel)]
    intro nix hnix
    cases hnix
    decide

/-- A packet without content, tags and nix vector. -/
def bare : Packet where
  m_buffer := ⟨[], 0, [], by decide⟩
  m_metadata := 0

/-- Such a packet takes 48 bytes, and is written in full where there is room for 32. -/
theorem bare_overruns : ¬ bare.Serializes oneType 32 := by
  rw [Serializes, if_neg (by decide +kernel), cuts_off_iff]
  rintro ⟨hlt, -⟩
  exact absurd hlt (by decide +kernel)

end Packet

end Ns3
