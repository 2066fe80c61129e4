import Ns3.Network.Address
import Ns3.Foundation.ByteFormat

namespace Ns3.Aodv

/-- The route request header. The three flag bits in use are kept as booleans. -/
structure RreqHeader where
  gratuitous_rrep : Bool := false
  destination_only : Bool := false
  unknown_seqno : Bool := false
  hop_count : UInt8 := 0
  id : UInt32 := 0
  dst : Ipv4Address := Ipv4Address.uninitialized
  dst_seqno : UInt32 := 0
  origin : Ipv4Address := Ipv4Address.uninitialized
  origin_seqno : UInt32 := 0
deriving DecidableEq, Repr

/-- The route reply header; the lifetime is carried in milliseconds. -/
structure RrepHeader where
  ack_required : Bool := false
  prefix_size : UInt8 := 0
  hop_count : UInt8 := 0
  dst : Ipv4Address := Ipv4Address.uninitialized
  dst_seqno : UInt32 := 0
  origin : Ipv4Address := Ipv4Address.uninitialized
  life_time : UInt32 := 0
deriving DecidableEq, Repr

/-- The constructor stores the lifetime as a 32-bit number of milliseconds. -/
def RrepHeader.of (prefix_size hop_count : UInt8) (dst : Ipv4Address) (dst_seqno : UInt32)
    (origin : Ipv4Address) (life_time : Time) : RrepHeader where
  prefix_size := prefix_size
  hop_count := hop_count
  dst := dst
  dst_seqno := dst_seqno
  origin := origin
  life_time := UInt32.ofInt life_time.get_milliseconds

def RrepHeader.get_life_time (h : RrepHeader) : Time := milliseconds h.life_time.toNat

/-- The route error header: unreachable destinations with their sequence numbers. -/
structure RerrHeader where
  flag : UInt8 := 0
  reserved : UInt8 := 0
  unreachable : Std.ExtTreeMap Ipv4Address UInt32 := ∅

namespace RerrHeader

def get_dest_count (h : RerrHeader) : UInt8 := UInt8.ofNat h.unreachable.size

/-- `AddUnDestination`; `none` is the failing assertion that a header names fewer
than 255 destinations. -/
def add_un_destination (h : RerrHeader) (dst : Ipv4Address) (seq_no : UInt32) : Option RerrHeader :=
  if dst ∈ h.unreachable then some h
  else if h.get_dest_count < 255 then some { h with unreachable := h.unreachable.insert dst seq_no }
  else none

/-- `AddUnDestination` with the answer it returns. -/
def add_un_destination_result (h : RerrHeader) (dst : Ipv4Address) (seq_no : UInt32) :
    Option (Bool × RerrHeader) :=
  (h.add_un_destination dst seq_no).map (true, ·)

def clear (_ : RerrHeader) : RerrHeader := {}

end RerrHeader

/-- An AODV control message after its type header. The boolean of `rverify` is
the response flag of the verification tag, absent on an untagged packet;
`invalid` is a message of unknown type. -/
inductive Message
  | rreq (h : RreqHeader)
  | rrep (h : RrepHeader)
  | rerr (h : RerrHeader)
  | rrep_ack
  | rverify (tag : Option Bool)
  | invalid

/-- A control packet given to a socket: the local address of the socket, the
destination address, the TTL tag and the message. -/
structure Transmission where
  source : Ipv4Address
  destination : Ipv4Address
  ttl : UInt8
  message : Message

/-- What the protocol reads of a data packet. -/
structure Packet where
  uid : UInt64
  /-- The interface of the deferred-route-output tag, if the packet carries one. -/
  tag : Option Int := none
  udp_destination_port : UInt16 := 0
deriving DecidableEq, Repr

end Ns3.Aodv

namespace Ns3.Aodv

/-- A map from destinations to their sequence numbers. -/
abbrev Destinations := Std.ExtTreeMap Ipv4Address UInt32

namespace Destinations

/-- The destinations of a list entered one by one, as far as they are new. -/
def enter (m : Destinations) (l : List (Ipv4Address × UInt32)) : Destinations :=
  l.foldl (fun m p => m.insertIfNew p.1 p.2) m

variable {m m' : Destinations} {l : List (Ipv4Address × UInt32)} {d : Ipv4Address} {n : UInt32}

theorem mem_enter : d ∈ m.enter l ↔ d ∈ m ∨ d ∈ l.map (·.1) := by
  induction l generalizing m with
  | nil => simp [enter]
  | cons p l ih =>
    rw [enter, List.foldl_cons, ← enter, ih, Std.ExtTreeMap.mem_insertIfNew, Std.LawfulEqCmp.compare_eq_iff_eq]
    simp only [List.map_cons, List.mem_cons]
    grind

theorem size_le_size_enter : m.size ≤ (m.enter l).size := by
  induction l generalizing m with
  | nil => exact le_rfl
  | cons p l ih => exact Std.ExtTreeMap.size_le_size_insertIfNew.trans ih

theorem insertIfNew_of_mem (h : d ∈ m) : m.insertIfNew d n = m := by
  apply Std.ExtTreeMap.ext_getElem?
  intro k
  rw [Std.ExtTreeMap.getElem?_insertIfNew, if_neg]
  rintro ⟨hk, hnew⟩
  exact hnew h

theorem getElem?_enter (hdistinct : (l.map (·.1)).Nodup) :
    (m.enter l)[d]? = some n ↔ m[d]? = some n ∨ d ∉ m ∧ (d, n) ∈ l := by
  induction l generalizing m with
  | nil => simp [enter]
  | cons p l ih =>
    rw [List.map_cons, List.nodup_cons] at hdistinct
    rw [enter, List.foldl_cons, ← enter, ih hdistinct.2, Std.ExtTreeMap.getElem?_insertIfNew,
      Std.ExtTreeMap.mem_insertIfNew]
    obtain ⟨d', n'⟩ := p
    have hother : d' = d → (d, n) ∉ l := by
      rintro rfl hmem
      exact hdistinct.1 (List.mem_map.mpr ⟨(d', n), hmem, rfl⟩)
    have hmem : d ∈ m ↔ m[d]?.isSome := Std.ExtTreeMap.mem_iff_isSome_getElem?
    simp only [List.mem_cons, Prod.mk.injEq, Std.LawfulEqCmp.compare_eq_iff_eq]
    grind

theorem nodup_toList (m : Destinations) : (m.toList.map (·.1)).Nodup := by
  have hdistinct := Std.ExtTreeMap.distinct_keys_toList (t := m)
  rw [List.Nodup, List.pairwise_map]
  exact hdistinct.imp fun h => by simpa using h

theorem enter_toList (m : Destinations) : enter ∅ m.toList = m := by
  apply Std.ExtTreeMap.ext_getElem?
  intro k
  apply Option.ext
  intro n
  rw [getElem?_enter m.nodup_toList, Std.ExtTreeMap.mem_toList_iff_getElem?_eq_some]
  simp

theorem size_congr (h : ∀ d, d ∈ m ↔ d ∈ m') : m.size = m'.size := by
  have hkeys : m.keys.toFinset = m'.keys.toFinset := by
    ext d
    simp [h d]
  rw [← Std.ExtTreeMap.length_keys, ← Std.ExtTreeMap.length_keys,
    ← List.toFinset_card_of_nodup m.nodup_keys, ← List.toFinset_card_of_nodup m'.nodup_keys, hkeys]

end Destinations

namespace RerrHeader

open ByteFormat

def get_serialized_size (h : RerrHeader) : UInt32 := 3 + 8 * h.get_dest_count.toUInt32

def serialize (h : RerrHeader) : List UInt8 :=
  [h.flag, h.reserved, h.get_dest_count] ++
    h.unreachable.toList.flatMap fun j => write_hton_u32 j.1 ++ write_hton_u32 j.2

/-- The loop of `Deserialize`. -/
def read_destinations : ℕ → Destinations → Reader Destinations
  | 0, m => pure m
  | k + 1, m => do
    let address ← read_ntoh_u32
    let seqNo ← read_ntoh_u32
    read_destinations k (m.insertIfNew address seqNo)

/-- `Deserialize`, which fails where its assertion on the consumed length does. -/
def deserialize : Reader RerrHeader := do
  let flag ← read_u8
  let reserved ← read_u8
  let dest ← read_u8
  let unreachable ← read_destinations dest.toNat ∅
  let h : RerrHeader := { flag, reserved, unreachable }
  if 3 + 8 * dest.toNat = h.get_serialized_size.toNat then pure h else failure

variable {h : RerrHeader}

theorem reads_destinations (l : List (Ipv4Address × UInt32)) (m : Destinations) :
    Reads (read_destinations l.length m) (l.flatMap fun j => write_hton_u32 j.1 ++ write_hton_u32 j.2)
      (m.enter l) := by
  induction l generalizing m with
  | nil => exact Reads.pure m
  | cons p l ih =>
    rw [List.flatMap_cons, List.append_assoc]
    exact (reads_u32 p.1).bind ((reads_u32 p.2).bind (ih (m.insertIfNew p.1 p.2)))

theorem toNat_get_dest_count (hsize : h.unreachable.size ≤ 255) : h.get_dest_count.toNat = h.unreachable.size := by
  rw [get_dest_count, UInt8.toNat_ofNat', Nat.mod_eq_of_lt (by omega)]

theorem toNat_get_serialized_size (h : RerrHeader) :
    h.get_serialized_size.toNat = 3 + 8 * h.get_dest_count.toNat := by
  have hlt := h.get_dest_count.toNat_lt
  rw [get_serialized_size, UInt32.toNat_add, UInt32.toNat_mul, UInt8.toNat_toUInt32]
  simp only [UInt32.reduceToNat]
  omega

/-- What is serialized has the announced size and is read back, whatever follows it. -/
theorem reads_serialize (hsize : h.unreachable.size ≤ 255) : Reads deserialize h.serialize h := by
  have hcount := toNat_get_dest_count hsize
  have hlength : h.unreachable.toList.length = h.get_dest_count.toNat := by
    rw [Std.ExtTreeMap.length_toList, hcount]
  have hdestinations := reads_destinations h.unreachable.toList ∅
  rw [Destinations.enter_toList, hlength] at hdestinations
  have hlast : Reads (if 3 + 8 * h.get_dest_count.toNat = h.get_serialized_size.toNat then pure h else failure) [] h := by
    rw [if_pos (toNat_get_serialized_size h).symm]
    exact Reads.pure h
  have hall : Reads deserialize ([h.flag] ++ ([h.reserved] ++ ([h.get_dest_count] ++
      (h.unreachable.toList.flatMap (fun j => write_hton_u32 j.1 ++ write_hton_u32 j.2) ++ [])))) h := by
    refine (reads_u8 h.flag).bind ?_
    refine (reads_u8 h.reserved).bind ?_
    refine (reads_u8 h.get_dest_count).bind ?_
    exact hdestinations.bind hlast
  rwa [List.append_nil] at hall

theorem length_serialize (hsize : h.unreachable.size ≤ 255) :
    h.serialize.length = h.get_serialized_size.toNat := by
  have hwords : ∀ l : List (Ipv4Address × UInt32),
      (l.flatMap fun j => write_hton_u32 j.1 ++ write_hton_u32 j.2).length = 8 * l.length := by
    intro l
    induction l with
    | nil => rfl
    | cons p l ih =>
      rw [List.flatMap_cons, List.length_append, ih, List.length_cons]
      simp [write_hton_u32]
      omega
  rw [serialize, List.length_append, hwords, Std.ExtTreeMap.length_toList, toNat_get_serialized_size,
    toNat_get_dest_count hsize]
  rfl

end RerrHeader

namespace RreqHeader

open ByteFormat

/-- `m_flags`, with the bits 5, 4 and 3. -/
def flags (h : RreqHeader) : UInt8 :=
  (if h.gratuitous_rrep then 0x20 else 0) ||| (if h.destination_only then 0x10 else 0) ||| (if h.unknown_seqno then 0x08 else 0)

def serialize (h : RreqHeader) : List UInt8 :=
  [h.flags] ++ [0] ++ [h.hop_count] ++ write_hton_u32 h.id ++ write_hton_u32 h.dst ++ write_hton_u32 h.dst_seqno ++
    write_hton_u32 h.origin ++ write_hton_u32 h.origin_seqno

def deserialize : Reader RreqHeader := do
  let flags ← read_u8
  let _reserved ← read_u8
  let hop_count ← read_u8
  let id ← read_ntoh_u32
  let dst ← read_ntoh_u32
  let dst_seqno ← read_ntoh_u32
  let origin ← read_ntoh_u32
  let origin_seqno ← read_ntoh_u32
  pure {
    gratuitous_rrep := flags &&& 0x20 != 0
    destination_only := flags &&& 0x10 != 0
    unknown_seqno := flags &&& 0x08 != 0
    hop_count, id, dst, dst_seqno, origin, origin_seqno }

theorem flags_bits (h : RreqHeader) : (h.flags &&& 0x20 != 0) = h.gratuitous_rrep ∧
    (h.flags &&& 0x10 != 0) = h.destination_only ∧ (h.flags &&& 0x08 != 0) = h.unknown_seqno := by
  unfold flags
  cases h.gratuitous_rrep <;> cases h.destination_only <;> cases h.unknown_seqno <;> decide

theorem reads_serialize (h : RreqHeader) : Reads deserialize h.serialize h := by
  obtain ⟨hgratuitous, honly, hunknown⟩ := h.flags_bits
  have hall : Reads deserialize ([h.flags] ++ ([0] ++ ([h.hop_count] ++ (write_hton_u32 h.id ++ (write_hton_u32 h.dst ++
      (write_hton_u32 h.dst_seqno ++ (write_hton_u32 h.origin ++ (write_hton_u32 h.origin_seqno ++ [])))))))) h := by
    refine (reads_u8 _).bind <| (reads_u8 _).bind <| (reads_u8 _).bind <| (reads_u32 _).bind <| (reads_u32 _).bind <|
      (reads_u32 _).bind <| (reads_u32 _).bind <| (reads_u32 _).bind ?_
    rw [hgratuitous, honly, hunknown]
    exact Reads.pure h
  simpa only [serialize, List.append_assoc, List.append_nil] using hall

end RreqHeader

namespace RrepHeader

open ByteFormat

def serialize (h : RrepHeader) : List UInt8 :=
  [if h.ack_required then 0x40 else 0] ++ [h.prefix_size] ++ [h.hop_count] ++ write_hton_u32 h.dst ++
    write_hton_u32 h.dst_seqno ++ write_hton_u32 h.origin ++ write_hton_u32 h.life_time

def deserialize : Reader RrepHeader := do
  let flags ← read_u8
  let prefix_size ← read_u8
  let hop_count ← read_u8
  let dst ← read_ntoh_u32
  let dst_seqno ← read_ntoh_u32
  let origin ← read_ntoh_u32
  let life_time ← read_ntoh_u32
  pure { ack_required := flags &&& 0x40 != 0, prefix_size, hop_count, dst, dst_seqno, origin, life_time }

theorem reads_serialize (h : RrepHeader) : Reads deserialize h.serialize h := by
  have hack : ((if h.ack_required then (0x40 : UInt8) else 0) &&& 0x40 != 0) = h.ack_required := by
    cases h.ack_required <;> decide
  have hall : Reads deserialize ([if h.ack_required then 0x40 else 0] ++ ([h.prefix_size] ++ ([h.hop_count] ++
      (write_hton_u32 h.dst ++ (write_hton_u32 h.dst_seqno ++ (write_hton_u32 h.origin ++
      (write_hton_u32 h.life_time ++ []))))))) h := by
    refine (reads_u8 _).bind <| (reads_u8 _).bind <| (reads_u8 _).bind <| (reads_u32 _).bind <| (reads_u32 _).bind <|
      (reads_u32 _).bind <| (reads_u32 _).bind ?_
    rw [hack]
    exact Reads.pure h
  simpa only [serialize, List.append_assoc, List.append_nil] using hall

end RrepHeader

namespace RerrHeader

open ByteFormat

theorem size_read_destinations {k : ℕ} {m m' : Destinations} {l rest : List UInt8}
    (h : (read_destinations k m).run l = some (m', rest)) : m'.size ≤ m.size + k := by
  induction k generalizing m l with
  | zero =>
    cases h
    exact le_rfl
  | succ k ih =>
    obtain ⟨address, l₁, -, h₁⟩ := bind_eq_some h
    obtain ⟨number, l₂, -, h₂⟩ := bind_eq_some h₁
    have hsize := ih h₂
    have hinsert := Std.ExtTreeMap.size_insertIfNew_le (t := m) (k := address) (v := number)
    omega

theorem size_of_deserialize {h : RerrHeader} {l rest : List UInt8} (hread : deserialize.run l = some (h, rest)) :
    h.unreachable.size ≤ 255 := by
  obtain ⟨flag, l₁, -, h₁⟩ := bind_eq_some hread
  obtain ⟨reserved, l₂, -, h₂⟩ := bind_eq_some h₁
  obtain ⟨dest, l₃, -, h₃⟩ := bind_eq_some h₂
  obtain ⟨unreachable, l₄, hdestinations, h₄⟩ := bind_eq_some h₃
  have hsize := size_read_destinations hdestinations
  have hdest := dest.toNat_lt
  rw [Std.ExtTreeMap.size_empty] at hsize
  have hle : unreachable.size ≤ 255 := by omega
  dsimp only at h₄
  split at h₄
  next =>
    cases h₄
    exact hle
  next => cases h₄

end RerrHeader

namespace Message

open ByteFormat

/-- The type header and the header of a message. A message of unknown type is never sent. -/
def serialize : Message → List UInt8
  | .rreq h => 1 :: h.serialize
  | .rrep h => 2 :: h.serialize
  | .rerr h => 3 :: h.serialize
  | .rrep_ack => [4, 0]
  | .rverify _ => [5]
  | .invalid => []

/-- The response flag of the packet's verification tag. -/
def tag : Message → Option Bool
  | .rverify tag => tag
  | _ => none

/-- What `RecvAodv` removes from a packet, with its tag. -/
def deserialize (tag : Option Bool) : Reader Message := do
  let type ← read_u8
  match type with
  | 1 => RreqHeader.deserialize >>= fun h => pure (.rreq h)
  | 2 => RrepHeader.deserialize >>= fun h => pure (.rrep h)
  | 3 => RerrHeader.deserialize >>= fun h => pure (.rerr h)
  | 4 => pure .rrep_ack
  | 5 => pure (.rverify tag)
  | _ => pure .invalid

/-- The header of a RREP_ACK stays in the packet. -/
def unread : Message → List UInt8
  | .rrep_ack => [0]
  | _ => []

/-- The type is known, and a route error has no more destinations than it can count. -/
def WellFormed : Message → Prop
  | .rerr h => h.unreachable.size ≤ 255
  | .invalid => False
  | _ => True

variable {m m' : Message}

theorem run_serialize (hm : m.WellFormed) (rest : List UInt8) :
    (deserialize m.tag).run (m.serialize ++ rest) = some (m, m.unread ++ rest) := by
  have htype : ∀ (b : UInt8) (l : List UInt8), read_u8.run (b :: l) = some (b, l) := fun b l => reads_u8 b l
  cases m with
  | rreq h => exact (run_bind_of_run (htype 1 _) _).trans (((RreqHeader.reads_serialize h).map Message.rreq) rest)
  | rrep h => exact (run_bind_of_run (htype 2 _) _).trans (((RrepHeader.reads_serialize h).map Message.rrep) rest)
  | rerr h => exact (run_bind_of_run (htype 3 _) _).trans (((RerrHeader.reads_serialize hm).map Message.rerr) rest)
  | rrep_ack => rfl
  | rverify tag => rfl
  | invalid => exact hm.elim

theorem wellFormed_of_run {tag : Option Bool} {l rest : List UInt8} (h : (deserialize tag).run l = some (m, rest))
    (hm : m ≠ .invalid) : m.WellFormed := by
  obtain ⟨type, l', -, hmessage⟩ := bind_eq_some h
  split at hmessage
  · obtain ⟨r, l₁, -, hr⟩ := bind_eq_some hmessage
    cases hr
    trivial
  · obtain ⟨r, l₁, -, hr⟩ := bind_eq_some hmessage
    cases hr
    trivial
  · obtain ⟨e, l₁, he, hr⟩ := bind_eq_some hmessage
    cases hr
    exact RerrHeader.size_of_deserialize he
  · cases hmessage
    trivial
  · cases hmessage
    trivial
  · cases hmessage
    exact (hm rfl).elim

/-- A message is read back from the bytes that it is sent as, whatever follows them; what is accepted with a known type can be
sent on as it is; and no message begins with the bytes of another one. -/
theorem wire_faithful :
    (∀ m : Message, m.WellFormed → ∀ rest, (deserialize m.tag).run (m.serialize ++ rest) = some (m, m.unread ++ rest)) ∧
    (∀ (tag : Option Bool) (l : List UInt8) (m : Message) (rest : List UInt8), (deserialize tag).run l = some (m, rest) →
      m ≠ .invalid → m.WellFormed) ∧
    ∀ m m' : Message, m.WellFormed → m'.WellFormed → m.tag = m'.tag → m.serialize <+: m'.serialize → m = m' := by
  refine ⟨fun m hm => run_serialize hm, fun _ _ _ _ h => wellFormed_of_run h, ?_⟩
  rintro m m' hm hm' htag ⟨rest, hrest⟩
  have hread := run_serialize hm rest
  have hread' := run_serialize hm' []
  rw [List.append_nil, ← hrest, ← htag, hread] at hread'
  exact (Prod.mk.inj (Option.some.inj hread')).1

end Message

end Ns3.Aodv
