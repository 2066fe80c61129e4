import Ns3.Internet.TcpTxBuffer.Ack

/-! What `Update` makes of a SACK option. -/

namespace Ns3.TcpTxBuffer

/-- Whether an item lies wholly inside a block. -/
def covers (block : SackBlock) (item : TcpTxItem) : Bool :=
  item.start_seq.greater_equal block.1 && (item.start_seq.add item.get_size).less_equal block.2

def covered (list : List SackBlock) (item : TcpTxItem) : Bool := list.any fun block => covers block item

/-- An item that is sacked now, if it is one of those. -/
def touch (c : TcpTxItem → Bool) (item : TcpTxItem) : TcpTxItem :=
  if !item.sacked && c item then { item with lost := false, sacked := true } else item

def count (block : SackBlock) (t : Tally) (item : TcpTxItem) : Tally :=
  if !item.sacked && covers block item then {
    lost_out := if item.lost then t.lost_out - item.get_size else t.lost_out
    sacked_out := t.sacked_out + item.get_size
    bytes_sacked := t.bytes_sacked + item.get_size
    highest_sack :=
      if t.highest_sack.1 = none ∨ t.highest_sack.2.less_equal (item.start_seq.add item.get_size) then
        (some item.node, item.start_seq)
      else t.highest_sack }
  else t

def counts : List SackBlock → Tally → List TcpTxItem → Tally
  | [], t, _ => t
  | block :: list, t, l => counts list (l.foldl (count block) t) (l.map (touch (covers block)))

variable {s s' : TcpTxBuffer} {l l' A B : List TcpTxItem} {base : SequenceNumber32} {p q t thresh : ℕ} {seq : SequenceNumber32}
  {item P T : TcpTxItem} {rest : List TcpTxItem} {n offset : UInt32} {block : SackBlock} {list : List SackBlock} {tally : Tally}
  {c c' f : TcpTxItem → Bool}

@[simp] theorem key_touch (c : TcpTxItem → Bool) (item : TcpTxItem) : key (touch c item) = key item := by
  rw [touch]
  split <;> rfl

@[simp] theorem sacked_touch (c : TcpTxItem → Bool) (item : TcpTxItem) : (touch c item).sacked = (item.sacked || c item) := by
  rw [touch]
  cases hs : item.sacked <;> cases hc : c item <;> simp [hs]

theorem covers_of_key (h : key item = key P) : covers block item = covers block P := by
  have hkey : item.node = P.node ∧ item.packet = P.packet ∧ item.start_seq = P.start_seq := by simpa [key] using h
  rw [covers, covers, hkey.2.2, get_size_eq, get_size_eq, hkey.2.1]

theorem touch_of_false (h : c item = false) : touch c item = item := by
  rw [touch, h, Bool.and_false, if_neg Bool.false_ne_true]

theorem map_touch_of_false (h : ∀ i ∈ l, c i = false) : l.map (touch c) = l :=
  (List.map_congr_left fun i hi => touch_of_false (h i hi)).trans (List.map_id l)

theorem touch_touch (h : c' (touch c item) = c' item) : touch c' (touch c item) = touch (fun i => c i || c' i) item := by
  cases hs : item.sacked <;> cases hc : c item <;> cases hc' : c' item <;> simp_all [touch]

theorem foldl_count_of_false (h : ∀ i ∈ l, covers block i = false) : l.foldl (count block) tally = tally := by
  induction l generalizing tally with
  | nil => rfl
  | cons item l ih =>
    rw [List.foldl_cons, count, h item (by simp), Bool.and_false, if_neg Bool.false_ne_true]
    exact ih fun i hi => h i (by simp [hi])

theorem greater_of_le {b : SequenceNumber32} (hb : (base.plus t).greater_equal b = true) (ht : t < 2 ^ 31) (hpq : p ≤ q) (hqt : q ≤ t)
    (hp : (base.plus p).greater b = true) : (base.plus q).greater b = true := by
  have hhalf : SequenceNumber32.half_max_value.toNat = 2147483647 := rfl
  have hbase := base.value.toNat_lt
  have hb' := b.value.toNat_lt
  rcases b with ⟨b⟩
  simp only [SequenceNumber32.greater_equal, SequenceNumber32.greater, SequenceNumber32.plus, gt_iff_lt, Bool.or_eq_true,
    Bool.and_eq_true, decide_eq_true_eq, UInt32.lt_iff_toNat_lt, UInt32.le_iff_toNat_le, UInt32.toNat_sub, UInt32.toNat_add,
    UInt32.toNat_ofNat', hhalf, beq_iff_eq, SequenceNumber32.mk.injEq, ← UInt32.toNat_inj] at hb hp hb' ⊢
  omega

/-- The loop over the items stops early only where the block is past. -/
theorem update_block_eq (tally : Tally) (hplaced : Placed base p l) (hapart : ∀ i ∈ l, i.sacked = true → i.lost = false)
    (hend : (base.plus t).greater_equal block.2 = true) (ht : t < 2 ^ 31) (hl : p + total l ≤ t) :
    update_block block (base.plus p) tally l = some (l.map (touch (covers block)), l.foldl (count block) tally) := by
  induction l generalizing p tally with
  | nil => rfl
  | cons item rest ih =>
    have hitem := hplaced
    obtain ⟨hstart, hpos, hrest⟩ := hplaced
    rw [total_cons] at hl
    have hlater := ih tally hrest (fun i hi => hapart i (by simp [hi])) (by omega)
    have hnow := ih (count block tally item) hrest (fun i hi => hapart i (by simp [hi])) (by omega)
    have hsize : item.start_seq.add item.get_size = base.plus (p + item.packet.length) := by
      rw [hstart, plus_get_size]
    rw [update_block]
    dsimp only
    rw [← hstart, hsize, List.map_cons, List.foldl_cons]
    by_cases hcover : covers block item = true
    · have hcond : (item.start_seq.greater_equal block.1 && (base.plus (p + item.packet.length)).less_equal block.2) = true := by
        rw [← hsize]
        exact hcover
      rw [if_pos hcond]
      cases hsacked : item.sacked with
      | true =>
        have hlost := hapart item (by simp) hsacked
        rw [if_pos rfl, hlost, if_neg Bool.false_ne_true, hlater, count, hsacked, touch, hsacked]
        rfl
      | false =>
        have hcount : count block tally item = {
            lost_out := if item.lost then tally.lost_out - item.get_size else tally.lost_out
            sacked_out := tally.sacked_out + item.get_size
            bytes_sacked := tally.bytes_sacked + item.get_size
            highest_sack :=
              if tally.highest_sack.1 = none ∨ tally.highest_sack.2.less_equal (base.plus (p + item.packet.length)) then
                (some item.node, item.start_seq)
              else tally.highest_sack } := by
          rw [count, hsacked, hcover, hsize]
          rfl
        rw [if_neg Bool.false_ne_true, ← hcount, hnow, touch, hsacked, hcover]
        rfl
    · rw [Bool.not_eq_true] at hcover
      have hcond : (item.start_seq.greater_equal block.1 && (base.plus (p + item.packet.length)).less_equal block.2) = false := by
        rw [← hsize]
        exact hcover
      have hcount : count block tally item = tally := by
        rw [count, hcover, Bool.and_false]
        rfl
      rw [hcond, if_neg Bool.false_ne_true, touch_of_false hcover, hcount]
      split
      next hpast =>
        -- the items above are not inside the block either
        have hnone : ∀ i ∈ rest, covers block i = false := by
          intro i hi
          obtain ⟨k, hk, hle⟩ := hrest.mem hi
          have hend' : i.start_seq.add i.get_size = base.plus (p + item.packet.length + k + i.packet.length) := by
            rw [hk, plus_get_size]
          rw [covers, hend', SequenceNumber32.less_equal, greater_of_le hend ht (by omega) (by omega) hpast, Bool.not_true,
            Bool.and_false]
        rw [map_touch_of_false hnone, foldl_count_of_false hnone]
      next => rw [hlater]; rfl

theorem update_blocks_eq (tally : Tally) (hplaced : Placed base 0 l) (hapart : ∀ i ∈ l, i.sacked = true → i.lost = false)
    (ht : total l < 2 ^ 31) (hlist : ∀ block ∈ list, (base.plus (total l)).less block.1 = false ∧
      (base.plus (total l)).greater_equal block.2 = true) :
    update_blocks base (base.plus (total l)) list tally l = some (true, l.map (touch (covered list)), counts list tally l) := by
  induction list generalizing l tally with
  | nil =>
    have hnone : ∀ i ∈ l, covered [] i = false := fun _ _ => rfl
    rw [update_blocks, map_touch_of_false hnone]
    rfl
  | cons block list ih =>
    obtain ⟨hfirst, hend⟩ := hlist block (by simp)
    have hblock := update_block_eq (p := 0) tally hplaced hapart hend ht (Nat.zero_add _).le
    rw [SequenceNumber32.plus_zero] at hblock
    have hkey : (l.map (touch (covers block))).map key = l.map key := by simp
    have htotal := total_of_key hkey
    have hnext := ih (l := l.map (touch (covers block))) (l.foldl (count block) tally) (hplaced.of_key hkey)
      (fun i hi hsacked => by
        obtain ⟨j, hj, rfl⟩ := List.mem_map.mp hi
        have hold := hapart j hj
        rw [touch] at hsacked ⊢
        split at hsacked
        next hnew => rw [if_pos hnew]
        next hnew => rw [if_neg hnew, hold hsacked])
      (by rwa [htotal]) (fun b hb => by rw [htotal]; exact hlist b (by simp [hb]))
    rw [htotal] at hnext
    rw [update_blocks, if_neg (by rw [hfirst]; exact Bool.false_ne_true), hblock]
    show update_blocks _ _ _ _ _ = _
    rw [hnext, List.map_map]
    congr 3
    exact List.map_congr_left fun i _ => by
      rw [Function.comp, touch_touch]
      · rfl
      · simp only [covered, covers_of_key (key_touch _ i)]

theorem foldl_count (block : SackBlock) (l : List TcpTxItem) (t : Tally) :
    (l.foldl (count block) t).bytes_sacked = t.bytes_sacked + bytes_of (fun i => !i.sacked && covers block i) l ∧
      (l.foldl (count block) t).sacked_out + bytes_of TcpTxItem.sacked l =
        t.sacked_out + bytes_of TcpTxItem.sacked (l.map (touch (covers block))) ∧
      (l.foldl (count block) t).lost_out + bytes_of TcpTxItem.lost l =
        t.lost_out + bytes_of TcpTxItem.lost (l.map (touch (covers block))) := by
  induction l generalizing t with
  | nil => simp
  | cons item l ih =>
    obtain ⟨hbytes, hsacked, hlost⟩ := ih (count block t item)
    have hsize : (touch (covers block) item).get_size = item.get_size := by
      have hkey := key_touch (covers block) item
      simp only [key, Prod.mk.injEq] at hkey
      rw [get_size_eq, hkey.2.1, get_size_eq]
    rw [List.foldl_cons, List.map_cons, bytes_of_cons, bytes_of_cons, bytes_of_cons, bytes_of_cons, bytes_of_cons, hsize, hbytes]
    have htouch : touch (covers block) item =
        if !item.sacked && covers block item then { item with lost := false, sacked := true } else item := rfl
    rw [htouch]
    rw [count] at hsacked hlost ⊢
    cases hs : item.sacked <;> cases hc : covers block item <;> cases hl : item.lost <;>
      simp only [hs, hc, hl, Bool.not_true, Bool.not_false, Bool.false_and, Bool.and_false, Bool.true_and, Bool.false_eq_true,
        if_true, if_false] at hsacked hlost ⊢ <;> grind

theorem bytes_of_newly (l : List TcpTxItem) :
    bytes_of TcpTxItem.sacked (l.map (touch c)) = bytes_of TcpTxItem.sacked l + bytes_of (fun i => !i.sacked && c i) l := by
  induction l with
  | nil => rfl
  | cons item l ih =>
    have hsize : (touch c item).get_size = item.get_size := by
      have hkey := key_touch c item
      simp only [key, Prod.mk.injEq] at hkey
      rw [get_size_eq, hkey.2.1, get_size_eq]
    rw [List.map_cons, bytes_of_cons, bytes_of_cons, bytes_of_cons, hsize, ih, sacked_touch]
    cases item.sacked <;> cases c item <;> simp <;> grind

theorem counts_eq (list : List SackBlock) (l : List TcpTxItem) (t : Tally) :
    (counts list t l).bytes_sacked + t.sacked_out = t.bytes_sacked + (counts list t l).sacked_out ∧
      (counts list t l).sacked_out + bytes_of TcpTxItem.sacked l =
        t.sacked_out + bytes_of TcpTxItem.sacked (l.map (touch (covered list))) ∧
      (counts list t l).lost_out + bytes_of TcpTxItem.lost l =
        t.lost_out + bytes_of TcpTxItem.lost (l.map (touch (covered list))) := by
  induction list generalizing l t with
  | nil =>
    have hnone : ∀ i ∈ l, covered [] i = false := fun _ _ => rfl
    rw [map_touch_of_false hnone]
    exact ⟨rfl, rfl, rfl⟩
  | cons block list ih =>
    obtain ⟨hbytes, hsacked, hlost⟩ := ih (l.map (touch (covers block))) (l.foldl (count block) t)
    obtain ⟨hbytes', hsacked', hlost'⟩ := foldl_count block l t
    have hboth : (l.map (touch (covers block))).map (touch (covered list)) = l.map (touch (covered (block :: list))) := by
      rw [List.map_map]
      exact List.map_congr_left fun i _ => by
        rw [Function.comp, touch_touch]
        · rfl
        · simp only [covered, covers_of_key (key_touch _ i)]
    have hnewly := bytes_of_newly (c := covers block) l
    rw [hboth] at hsacked hlost
    rw [counts]
    refine ⟨?_, ?_, ?_⟩
    · grind
    · grind
    · grind

/-- Whether the first block that covers `P` comes when `T` is sacked already. -/
def overtaken (P T : TcpTxItem) : Bool → List SackBlock → Bool
  | _, [] => false
  | reached, block :: list => if covers block P then reached else overtaken P T (reached || covers block T) list

/-- Whether the item below the highest one that is sacked at the end is sacked later than that. -/
def overtakes (list : List SackBlock) : List TcpTxItem → Bool
  | P :: T :: rest =>
    if (T.sacked || covered list T) && rest.all fun item => !(item.sacked || covered list item) then
      !P.sacked && overtaken P T T.sacked list
    else overtakes list (T :: rest)
  | _ => false

theorem overtakes_append (hT : (T.sacked || covered list T) = true) (hB : ∀ i ∈ B, (i.sacked || covered list i) = false)
    (h : overtakes list (A ++ P :: T :: B) = false) : P.sacked = true ∨ overtaken P T T.sacked list = false := by
  induction A with
  | nil =>
    have hall : (B.all fun item => !(item.sacked || covered list item)) = true := by
      rw [List.all_eq_true]
      intro i hi
      rw [hB i hi]
      rfl
    rw [List.nil_append, overtakes, hT, hall, Bool.and_self, if_pos rfl] at h
    cases hP : P.sacked
    · rw [hP] at h
      exact .inr h
    · exact .inl rfl
  | cons a A ih =>
    refine ih ?_
    cases A with
    | nil =>
      rw [List.cons_append, List.nil_append, overtakes, List.all_cons, hT, Bool.not_true, Bool.false_and, Bool.and_false,
        if_neg Bool.false_ne_true] at h
      exact h
    | cons a' A =>
      have hnone : ((A ++ P :: T :: B).all fun item => !(item.sacked || covered list item)) = false := by
        rw [List.all_append, List.all_cons, List.all_cons, hT]
        simp
      rw [List.cons_append, List.cons_append, overtakes, hnone, Bool.and_false, if_neg Bool.false_ne_true] at h
      exact h

theorem overtaken_of_key {P' T' : TcpTxItem} (hP : key P' = key P) (hT : key T' = key T) (reached : Bool) (list : List SackBlock) :
    overtaken P' T' reached list = overtaken P T reached list := by
  induction list generalizing reached with
  | nil => rfl
  | cons block list ih => rw [overtaken, overtaken, covers_of_key hP, covers_of_key hT, ih]

theorem count_of_false (h : (!item.sacked && covers block item) = false) : count block tally item = tally := by
  rw [count, h, if_neg Bool.false_ne_true]

theorem foldl_count_same (h : ∀ i ∈ l, (!i.sacked && covers block i) = true →
    tally.highest_sack.1 ≠ none ∧ tally.highest_sack.2.less_equal (i.start_seq.add i.get_size) = false) :
    (l.foldl (count block) tally).highest_sack = tally.highest_sack := by
  induction l generalizing tally with
  | nil => rfl
  | cons item l ih =>
    have hitem : (count block tally item).highest_sack = tally.highest_sack := by
      cases hnew : !item.sacked && covers block item with
      | false => rw [count_of_false hnew]
      | true =>
        obtain ⟨hsome, hbefore⟩ := h item (by simp) hnew
        rw [count, hnew, if_pos rfl]
        show (if _ then _ else _) = _
        rw [if_neg]
        rw [hbefore]
        simpa using hsome
    rw [List.foldl_cons, ih, hitem]
    rw [hitem]
    exact fun i hi => h i (by simp [hi])

theorem foldl_count_cases (block : SackBlock) (l : List TcpTxItem) (tally : Tally) :
    (l.foldl (count block) tally).highest_sack = tally.highest_sack ∨
      ∃ i ∈ l, (l.foldl (count block) tally).highest_sack = (some i.node, i.start_seq) := by
  induction l generalizing tally with
  | nil => exact .inl rfl
  | cons item l ih =>
    rw [List.foldl_cons]
    rcases ih (count block tally item) with heq | ⟨i, hi, heq⟩
    · rw [heq]
      cases hnew : !item.sacked && covers block item with
      | false =>
        rw [count_of_false hnew]
        exact .inl rfl
      | true =>
        rw [count, hnew, if_pos rfl]
        show (if _ then _ else _) = _ ∨ _
        split
        · exact .inr ⟨item, by simp, rfl⟩
        · exact .inl rfl
    · exact .inr ⟨i, by simp [hi], heq⟩

/-- The highest item that is sacked at the end is found, if the one below it is not sacked later. -/
theorem counts_highest (hplaced : Placed base p (A ++ P :: T :: B)) (hfar : p + total (A ++ P :: T :: B) < 2 ^ 31)
    (hsacked : T.sacked = true → tally.highest_sack = (some T.node, T.start_seq))
    (hunsacked : T.sacked = false → tally.highest_sack.1 = none ∨ ∃ i ∈ A ++ [P], tally.highest_sack.2 = i.start_seq)
    (hB : ∀ i ∈ B, covered list i = false) (hT : (T.sacked || covered list T) = true)
    (horder : P.sacked = true ∨ overtaken P T T.sacked list = false) :
    (counts list tally (A ++ P :: T :: B)).highest_sack = (some T.node, T.start_seq) := by
  induction list generalizing A P T B tally with
  | nil => exact hsacked (by simpa [covered] using hT)
  | cons block list ih =>
    obtain ⟨hbelow, habove⟩ := placed_append.mp hplaced
    obtain ⟨hPstart, hPpos, hTstart, hTpos, hBplaced⟩ := habove
    rw [total_append, total_cons, total_cons] at hfar
    have hBnone : ∀ i ∈ B, covers block i = false := by
      intro i hi
      have hi' := hB i hi
      rw [covered, List.any_cons, Bool.or_eq_false_iff] at hi'
      exact hi'.1
    -- where the items up to `T` start
    have hbefore : ∀ i ∈ A ++ [P], ∃ k, i.start_seq = base.plus k ∧ k + i.packet.length ≤ p + total A + P.packet.length := by
      intro i hi
      rcases List.mem_append.mp hi with hi | hi
      · obtain ⟨k, hk, hle⟩ := hbelow.mem hi
        exact ⟨p + k, hk, by omega⟩
      · rw [List.mem_singleton.mp hi]
        exact ⟨_, hPstart, le_rfl⟩
    have hTend : T.start_seq.add T.get_size = base.plus (p + total A + P.packet.length + T.packet.length) := by
      rw [hTstart, plus_get_size]
    obtain ⟨mid, hmid⟩ : ∃ mid, mid = (A ++ [P]).foldl (count block) tally := ⟨_, rfl⟩
    have hfold : (A ++ P :: T :: B).foldl (count block) tally = count block mid T := by
      rw [List.append_cons, List.foldl_append, List.foldl_cons, ← hmid, foldl_count_of_false hBnone]
    have hmap : (A ++ P :: T :: B).map (touch (covers block)) =
        A.map (touch (covers block)) ++ touch (covers block) P :: touch (covers block) T :: B.map (touch (covers block)) := by
      simp
    have hkeys : (A.map (touch (covers block)) ++ touch (covers block) P :: touch (covers block) T ::
        B.map (touch (covers block))).map key = (A ++ P :: T :: B).map key := by
      rw [← hmap, List.map_map]
      exact List.map_congr_left fun i _ => key_touch _ i
    have hTkey : (touch (covers block) T).node = T.node ∧ (touch (covers block) T).start_seq = T.start_seq := by
      have hkey := key_touch (covers block) T
      simp only [key, Prod.mk.injEq] at hkey
      exact ⟨hkey.1, hkey.2.2⟩
    have hcovered : ∀ i, covered list (touch (covers block) i) = covered list i := fun i => by
      simp only [covered, covers_of_key (key_touch _ i)]
    -- after the block
    have hstep : (T.sacked = true ∨ covers block T = true → (count block mid T).highest_sack = (some T.node, T.start_seq)) ∧
        (T.sacked = false → covers block T = false →
          (count block mid T).highest_sack.1 = none ∨ ∃ i ∈ A ++ [P], (count block mid T).highest_sack.2 = i.start_seq) := by
      cases hs : T.sacked with
      | true =>
        have hnew : (!T.sacked && covers block T) = false := by rw [hs]; rfl
        refine ⟨fun _ => ?_, fun h => by cases h⟩
        rw [count_of_false hnew, hmid]
        have hhighest := hsacked hs
        rw [foldl_count_same, hhighest]
        intro i hi hcover
        rw [hhighest]
        refine ⟨by simp, ?_⟩
        obtain ⟨k, hk, hle⟩ := hbefore i hi
        rcases List.mem_append.mp hi with hi | hi
        · obtain ⟨k', hk', hle'⟩ := hbelow.mem hi
          rw [hk', plus_get_size, hTstart, SequenceNumber32.less_equal_plus (by omega) (by omega)]
          exact decide_eq_false (by omega)
        · -- `P` would be sacked too late
          rw [List.mem_singleton.mp hi, Bool.and_eq_true, Bool.not_eq_true'] at hcover
          rcases horder with horder | horder
          · rw [hcover.1] at horder
            cases horder
          · rw [overtaken, hcover.2, if_pos rfl, hs] at horder
            cases horder
      | false =>
        have hmidcases : mid.highest_sack.1 = none ∨ ∃ i ∈ A ++ [P], mid.highest_sack.2 = i.start_seq := by
          rw [hmid]
          rcases foldl_count_cases block (A ++ [P]) tally with heq | ⟨i, hi, heq⟩
          · rw [heq]
            exact hunsacked hs
          · rw [heq]
            exact .inr ⟨i, hi, rfl⟩
        refine ⟨fun hcover => ?_, fun _ hcover => ?_⟩
        · have hnew : (!T.sacked && covers block T) = true := by
            rw [hs, hcover.resolve_left Bool.false_ne_true]
            rfl
          rw [count, hnew, if_pos rfl]
          show (if _ then _ else _) = _
          rw [if_pos]
          refine hmidcases.imp_right fun hmem => ?_
          obtain ⟨i, hi, heq⟩ := hmem
          obtain ⟨k, hk, hle⟩ := hbefore i hi
          rw [heq, hk, hTend, SequenceNumber32.less_equal_plus (by omega) (by omega)]
          exact decide_eq_true (by omega)
        · rw [count_of_false (by rw [hcover, Bool.and_false])]
          exact hmidcases
    rw [counts, hfold, hmap, ← hTkey.1, ← hTkey.2]
    refine ih (hplaced.of_key hkeys) ?_ ?_ ?_ ?_ ?_ ?_
    · rw [total_of_key hkeys, total_append, total_cons, total_cons]
      exact hfar
    · intro hs
      rw [sacked_touch, Bool.or_eq_true] at hs
      rw [hTkey.1, hTkey.2]
      exact hstep.1 hs
    · intro hs
      rw [sacked_touch, Bool.or_eq_false_iff] at hs
      refine (hstep.2 hs.1 hs.2).imp_right fun hmem => ?_
      obtain ⟨i, hi, heq⟩ := hmem
      refine ⟨touch (covers block) i, ?_, ?_⟩
      · simp only [List.mem_append, List.mem_singleton, List.mem_map] at hi ⊢
        rcases hi with hi | rfl
        · exact .inl ⟨i, hi, rfl⟩
        · exact .inr rfl
      · have hkey := key_touch (covers block) i
        simp only [key, Prod.mk.injEq] at hkey
        rw [heq, hkey.2.2]
    · intro i hi
      obtain ⟨j, hj, rfl⟩ := List.mem_map.mp hi
      have hj' := hB j hj
      rw [covered, List.any_cons, Bool.or_eq_false_iff] at hj'
      rw [hcovered]
      exact hj'.2
    · rw [sacked_touch, hcovered, Bool.or_assoc]
      exact hT
    · rw [sacked_touch, sacked_touch, overtaken_of_key (key_touch _ P) (key_touch _ T)]
      rcases horder with horder | horder
      · exact .inl (by rw [horder, Bool.true_or])
      · rw [overtaken] at horder
        cases hP : covers block P with
        | true => exact .inl (Bool.or_true _)
        | false =>
          rw [hP, if_neg Bool.false_ne_true] at horder
          exact .inr horder

end Ns3.TcpTxBuffer
