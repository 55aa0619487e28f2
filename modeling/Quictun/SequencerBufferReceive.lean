import Quictun.QuicIntervalSetCount
import Quictun.SequencerBuffer

/-!
# What the sequencer's buffer keeps

`Holds C S rcv` says that the buffer, of `C` bytes, has received the bytes `rcv` of the stream `S`, and
that each of them that has not been read is where the ring puts it. `OnStreamData()` adds the bytes of
a frame to `rcv`.
-/

namespace Quictun

open QuicIntervalSet List Option Set

/-! ## Parts of a stream -/

def piece (S : Nat → UInt8) (p n : Nat) : Bytes := (List.range' p n).map S

section
variable (S : Nat → UInt8) (p m n : Nat)

@[simp] theorem length_piece : (piece S p n).length = n := by simp [piece]

theorem piece_add : piece S p (m + n) = piece S p m ++ piece S (p + m) n := by
  simp [piece, ← range'_append_1]

theorem drop_piece : (piece S p n).drop m = piece S (p + m) (n - m) := by
  simp [piece, ← map_drop]

end

variable {S : Nat → UInt8}

theorem take_piece {p m n : Nat} (h : m ≤ n) : (piece S p n).take m = piece S p m := by
  obtain ⟨k, rfl⟩ := Nat.exists_eq_add_of_le h
  rw [piece_add, take_left' (length_piece S p m)]

theorem piece_eq_nil {p n : Nat} : piece S p n = [] ↔ n = 0 := by
  rw [← length_eq_zero_iff, length_piece]

namespace BufferBlock

theorem write_piece (b : BufferBlock) (S : Nat → UInt8) (y p n j : Nat) :
    b.write y (piece S p n) j = if y ≤ j ∧ j < y + n then S (p + (j - y)) else b j := by
  unfold write
  rw [length_piece]
  split
  next h =>
    rw [getD_eq_getElem?_getD, piece, getElem?_map, getElem?_range' (by omega)]
    simp
  · rfl

theorem read_eq_piece {b : BufferBlock} {S : Nat → UInt8} {y p n : Nat} (h : ∀ j < n, b (y + j) = S (p + j)) :
    b.read y n = piece S p n := by
  apply ext_getElem
  · simp [read]
  · intro j hj _
    simp only [read, length_map, length_range'] at hj
    simpa [read, piece] using h j hj

end BufferBlock

theorem kBlockSizeBytes_pos : 0 < kBlockSizeBytes := by decide

namespace QuicStreamSequencerBuffer

variable {C : Nat} {S : Nat → UInt8} {rcv : Set Nat} {s s' s'' : QuicStreamSequencerBuffer}

/-! ## Bytes in their places -/

def byteAt (s : QuicStreamSequencerBuffer) (p : Nat) : Option UInt8 :=
  (s.block (s.getBlockIndex p)).map fun b => b (s.getInBlockOffset p)

variable {n p : Nat}

theorem region_eq_piece (hC : 0 < s.maxBufferCapacityBytes) (hn : 0 < n)
    (hroom : n ≤ s.getBlockCapacity (s.getBlockIndex p) - s.getInBlockOffset p)
    (h : ∀ q, p ≤ q → q < p + n → s.byteAt q = some (S q)) :
    s.region (s.getBlockIndex p) (s.getInBlockOffset p) n = some (piece S p n) := by
  have hp := h p le_rfl (by omega)
  unfold byteAt at hp
  obtain ⟨b, hb, -⟩ := map_eq_some_iff.1 hp
  unfold region
  rw [hb, map_some]
  congr 1
  apply BufferBlock.read_eq_piece
  intro j hj
  obtain ⟨-, hi, ho⟩ := BlockRing.index_eq_of_lt hC kBlockSizeBytes_pos (p := p) (lt_of_lt_of_le hj hroom)
  have hq := h (p + j) (Nat.le_add_right _ _) (by omega)
  unfold byteAt at hq
  rw [show s.getBlockIndex (p + j) = s.getBlockIndex p from hi, hb, map_some,
    show s.getInBlockOffset (p + j) = s.getInBlockOffset p + j from ho] at hq
  exact some.inj hq

structure Copied (S : Nat → UInt8) (X : Set Nat) (s s' : QuicStreamSequencerBuffer) : Prop where
  rest : s' = { s with blocks := s'.blocks }
  length : s'.blocks.length = s.blocks.length
  written : ∀ p ∈ X, s'.byteAt p = some (S p)
  kept : ∀ q v, s.byteAt q = some v → (∀ p ∈ X, p % s.maxBufferCapacityBytes ≠ q % s.maxBufferCapacityBytes) →
    s'.byteAt q = some v

theorem Copied.refl (s : QuicStreamSequencerBuffer) : Copied S ∅ s s :=
  ⟨rfl, rfl, fun _ h => absurd h (notMem_empty _), fun _ _ h _ => h⟩

theorem Copied.capacity {X : Set Nat} (h : Copied S X s s') : s'.maxBufferCapacityBytes = s.maxBufferCapacityBytes := by
  rw [h.rest]

theorem Copied.trans {X Y : Set Nat} (h : Copied S X s s') (h' : Copied S Y s' s'')
    (hd : ∀ p ∈ X, ∀ q ∈ Y, q % s.maxBufferCapacityBytes ≠ p % s.maxBufferCapacityBytes) : Copied S (X ∪ Y) s s'' where
  rest := by
    have h1 := h.rest
    have h2 := h'.rest
    rw [h1] at h2
    exact h2
  length := h'.length.trans h.length
  written p hp := by
    rcases hp with hp | hp
    · apply h'.kept p _ (h.written p hp)
      rw [h.capacity]
      exact hd p hp
    · exact h'.written p hp
  kept q v hq hne := by
    apply h'.kept q v (h.kept q v hq fun p hp => hne p (.inl hp))
    rw [h.capacity]
    exact fun p hp => hne p (.inr hp)

theorem block_set {l : List (Option BufferBlock)} {i : Nat} (hi : i < l.length) (b : Option BufferBlock) (j : Nat) :
    (l.set i b)[j]?.join = if i = j then b else l[j]?.join := by
  rw [getElem?_set]
  split
  next h =>
    subst h
    rfl
  · rfl

theorem copied_writeBlock (hC : 0 < s.maxBufferCapacityBytes)
    (hroom : n ≤ s.getBlockCapacity (s.getBlockIndex p) - s.getInBlockOffset p)
    (hl : s.getBlockIndex p < s.blocks.length) :
    Copied S (Set.Ico p (p + n)) s (s.writeBlock (s.getBlockIndex p) (s.getInBlockOffset p) (piece S p n)) := by
  have hblock : ∀ q, (s.writeBlock (s.getBlockIndex p) (s.getInBlockOffset p) (piece S p n)).block q =
      if s.getBlockIndex p =
        q then some (((s.block (s.getBlockIndex p)).getD fun _ => 0).write (s.getInBlockOffset p) (piece S p n))
      else s.block q := fun q => block_set hl _ q
  have hplace : ∀ j < n, s.getBlockIndex (p + j) = s.getBlockIndex p ∧
    s.getInBlockOffset (p + j) = s.getInBlockOffset p + j :=
    fun j hj => (BlockRing.index_eq_of_lt hC kBlockSizeBytes_pos (lt_of_lt_of_le hj hroom)).2
  refine ⟨rfl, length_set, fun q hq => ?_, fun q v hq hne => ?_⟩
  · obtain ⟨j, rfl⟩ := Nat.exists_eq_add_of_le hq.1
    have hj : j < n := by
      have := hq.2
      omega
    obtain ⟨hi, ho⟩ := hplace j hj
    change Option.map _ ((s.writeBlock _ _ _).block (s.getBlockIndex (p + j))) = _
    rw [hblock, hi, if_pos rfl, map_some]
    change some (BufferBlock.write _ _ _ (s.getInBlockOffset (p + j))) = _
    rw [ho, BufferBlock.write_piece, if_pos (by omega), Nat.add_sub_cancel_left]
  · unfold byteAt at hq
    obtain ⟨b, hb, hv⟩ := map_eq_some_iff.1 hq
    change Option.map _ ((s.writeBlock _ _ _).block (s.getBlockIndex q)) = _
    rw [hblock]
    split
    next hi =>
      rw [map_some, hi, hb]
      change some (BufferBlock.write _ _ _ (s.getInBlockOffset q)) = _
      rw [BufferBlock.write_piece, if_neg, getD_some, hv]
      rintro ⟨hlo, hhi⟩
      -- The place would be one that is written.
      obtain ⟨j, hj⟩ := Nat.exists_eq_add_of_le hlo
      obtain ⟨hi', ho'⟩ := hplace j (by omega)
      apply hne (p + j) ⟨Nat.le_add_right _ _, by omega⟩
      rw [BlockRing.mod_eq (K := kBlockSizeBytes) (p + j), BlockRing.mod_eq (K := kBlockSizeBytes) q]
      change _ * s.getBlockIndex (p + j) + s.getInBlockOffset (p + j) = _ * s.getBlockIndex q + s.getInBlockOffset q
      rw [hi', ho', hi, hj]
    · rw [hb, map_some, ← hv]
      rfl

/-! ## Copying -/

theorem copied_copyBlocks : ∀ (turns : Nat) {p n : Nat} {s : QuicStreamSequencerBuffer}, 0 < s.maxBufferCapacityBytes →
    n ≤ turns → s.totalBytesRead ≤ p → p + n ≤ s.totalBytesRead + s.maxBufferCapacityBytes →
    (∀ q, p ≤ q → q < p + n → s.getBlockIndex q < s.blocks.length) →
    ∃ s', copyBlocks turns s p (piece S p n) = (none, n, s') ∧ Copied S (Set.Ico p (p + n)) s s'
  | turns, p, 0, s, _, _, _, _, _ => by
    refine ⟨s, ?_, by rw [add_zero, Set.Ico_self]; exact Copied.refl s⟩
    cases turns <;> simp [copyBlocks, piece]
  | 0, _, n + 1, _, _, hf, _, _, _ => absurd hf (Nat.not_succ_le_zero n)
  | turns + 1, p, n + 1, s, hC, hf, hR, hend, hl => by
    have hlp := hl p le_rfl (by omega)
    obtain ⟨-, hpos, -⟩ := BlockRing.mod_add_room hC kBlockSizeBytes_pos p
    change 0 < s.getBlockCapacity (s.getBlockIndex p) - s.getInBlockOffset p at hpos
    unfold copyBlocks
    rw [if_neg (by rw [piece_eq_nil]; omega)]
    simp only [if_neg (not_le.2 hlp), length_piece]
    generalize hroom : s.getBlockCapacity (s.getBlockIndex p) - s.getInBlockOffset p = room at hpos ⊢
    -- The end of the window does not shorten the write.
    have hmin : min (if s.totalBytesRead + s.maxBufferCapacityBytes < p + room then
        s.totalBytesRead + s.maxBufferCapacityBytes - p else room) (n + 1) = min room (n + 1) := by
      split <;> omega
    rw [hmin, drop_piece]
    generalize hm : min room (n + 1) = m
    have hmr : m ≤ room := hm ▸ min_le_left _ _
    have hmn : m ≤ n + 1 := hm ▸ min_le_right _ _
    have hm0 : 0 < m := by omega
    rw [take_piece hmn]
    have hw := copied_writeBlock (S := S) hC (hroom.symm ▸ hmr) hlp
    generalize s.writeBlock (s.getBlockIndex p) (s.getInBlockOffset p) (piece S p m) = t at hw ⊢
    have htC := hw.capacity
    have htR : t.totalBytesRead = s.totalBytesRead := by rw [hw.rest]
    obtain ⟨s', he, hc⟩ := copied_copyBlocks turns (p := p + m) (n := n + 1 - m) (s := t) (by omega) (by omega)
      (by omega) (by omega) (fun q h1 h2 => by
        have := hl q (by omega) (by omega)
        rw [hw.length, getBlockIndex, htC]
        exact this)
    refine ⟨s', by rw [he, Nat.add_sub_cancel' hmn], ?_⟩
    have hunion : Set.Ico p (p + (n + 1)) = Set.Ico p (p + m) ∪ Set.Ico (p + m) (p + m + (n + 1 - m)) := by
      rw [Set.Ico_union_Ico_eq_Ico (by omega) (by omega)]
      congr 1
      omega
    rw [hunion]
    apply hw.trans hc
    intro x hx y hy he
    have hx2 := hx.2
    have hy1 := hy.1
    have hy2 := hy.2
    have hx1 := hx.1
    have := BlockRing.eq_of_mod_eq (C := s.maxBufferCapacityBytes) (p := x) (q := y) (by omega) (by omega) he.symm
    omega

theorem copied_copyIntervals {o n : Nat} : ∀ {l : QuicIntervalSet Nat} {s : QuicStreamSequencerBuffer}, l.Canonical →
    0 < s.maxBufferCapacityBytes →
    (∀ p ∈ points l, o ≤ p ∧ p < o + n ∧ s.totalBytesRead ≤ p ∧ p < s.totalBytesRead + s.maxBufferCapacityBytes) →
    (∀ q, o ≤ q → q < o + n → s.getBlockIndex q < s.blocks.length) →
    ∃ s', copyIntervals o (piece S o n) s l = (none, (points l).ncard, s') ∧ Copied S (points l) s s'
  | [], s, _, _, _, _ => by
    refine ⟨s, by simp [copyIntervals], ?_⟩
    rw [points_nil]
    exact Copied.refl s
  | i :: rest, s, hcan, hC, hin, hl => by
    obtain ⟨hi, hapart, hrest⟩ := canonical_cons.1 hcan
    have hlo := hin i.min (mem_points_cons.2 (.inl ⟨le_rfl, hi⟩))
    have hhi := hin (i.max - 1) (mem_points_cons.2 (.inl ⟨by omega, by omega⟩))
    have hmax : i.min + (i.max - i.min) = i.max := by omega
    have hdata : ((piece S o n).drop (i.min - o)).take (i.max - i.min) = piece S i.min (i.max - i.min) := by
      rw [drop_piece, take_piece (by omega)]
      congr 1
      omega
    obtain ⟨t, ht, hct⟩ := copied_copyBlocks (S := S) (i.max - i.min) (p := i.min) (n := i.max - i.min) (s := s)
      hC le_rfl hlo.2.2.1 (by omega) (fun q h1 h2 => hl q (by omega) (by omega))
    rw [hmax] at hct
    have htR : t.totalBytesRead = s.totalBytesRead := by rw [hct.rest]
    obtain ⟨s', hs', hcs'⟩ := copied_copyIntervals (l := rest) (s := t) hrest (hct.capacity ▸ hC)
      (fun p hp => by
        rw [htR, hct.capacity]
        exact hin p (mem_points_cons.2 (.inr hp)))
      (fun q h1 h2 => by
        rw [hct.length, getBlockIndex, hct.capacity]
        exact hl q h1 h2)
    refine ⟨s', ?_, ?_⟩
    · unfold copyIntervals copyStreamData
      rw [hdata, length_piece, ht]
      dsimp only
      rw [hs', ncard_points_cons hcan]
    · rw [points_cons_eq]
      apply hct.trans hcs'
      intro x hx y hy he
      have h1 := lt_of_mem_points hapart hy
      have h2 := hin y (mem_points_cons.2 (.inr hy))
      have hx1 := hx.1
      have hx2 := hx.2
      have := BlockRing.eq_of_mod_eq (C := s.maxBufferCapacityBytes) (p := x) (q := y) (by omega) (by omega) he.symm
      omega

theorem maybeAddMoreBlocks_spec (hcap : kInitialBlockCount ≤ s.maxBlocksCount) (hC : 0 < s.maxBufferCapacityBytes)
    {e : Nat} (he : 0 < e) (hle : s.blocks.length ≤ s.maxBlocksCount) :
    s.maybeAddMoreBlocks e = { s with blocks := (s.maybeAddMoreBlocks e).blocks } ∧
    (s.maybeAddMoreBlocks e).blocks.length ≤ s.maxBlocksCount ∧
    (∀ q < e, s.getBlockIndex q < (s.maybeAddMoreBlocks e).blocks.length) ∧
    ∀ q, (s.maybeAddMoreBlocks e).byteAt q = s.byteAt q := by
  have hidx : ∀ q, s.getBlockIndex q < s.maxBlocksCount := BlockRing.index_lt hC kBlockSizeBytes_pos
  have hneed : s.blocksNeeded e ≤ s.maxBlocksCount := by
    have := hidx (e - 1)
    unfold blocksNeeded
    split <;> omega
  have hq : ∀ q < e, s.getBlockIndex q < s.blocksNeeded e := by
    intro q hq
    unfold blocksNeeded
    split
    next hlt =>
      have hmono : s.getBlockIndex q ≤ s.getBlockIndex (e - 1) := by
        unfold getBlockIndex
        rw [Nat.mod_eq_of_lt hlt, Nat.mod_eq_of_lt (show q < s.maxBufferCapacityBytes by omega)]
        exact Nat.div_le_div_right (by omega)
      omega
    · exact hidx q
  unfold maybeAddMoreBlocks
  split
  next hmax => exact ⟨rfl, hle, fun q _ => hmax ▸ hidx q, fun _ => rfl⟩
  split
  next henough => exact ⟨rfl, hle, fun q h => lt_of_lt_of_le (hq q h) henough, fun _ => rfl⟩
  · refine ⟨rfl, ?_, fun q h => ?_, fun q => ?_⟩
    · simp only [length_append, length_replicate]
      omega
    · have := hq q h
      simp only [length_append, length_replicate]
      omega
    · -- The new entries are null.
      have hblock : ∀ i k : Nat, (s.blocks ++ replicate k none)[i]?.join = s.blocks[i]?.join := by
        intro i k
        by_cases h : i < s.blocks.length
        · rw [getElem?_append_left h]
        · rw [getElem?_append_right (Nat.le_of_not_lt h), getElem?_eq_none (Nat.le_of_not_lt h), getElem?_replicate]
          split <;> rfl
      simp only [byteAt, block, hblock]
      rfl

/-! ## The invariant -/

structure Holds (C : Nat) (S : Nat → UInt8) (rcv : Set Nat) (s : QuicStreamSequencerBuffer) : Prop where
  capacity : s.maxBufferCapacityBytes = C
  length_le : s.blocks.length ≤ s.maxBlocksCount
  canonical : s.bytesReceived.Canonical
  received : points s.bytesReceived = rcv
  consumed : ∀ p < s.totalBytesRead, p ∈ rcv
  window : ∀ p ∈ rcv, p < s.totalBytesRead + C
  buffered : s.numBytesBuffered = {p | p ∈ rcv ∧ s.totalBytesRead ≤ p}.ncard
  stored : ∀ p ∈ rcv, s.totalBytesRead ≤ p → s.byteAt p = some (S p)
  retired : ∀ r ∈ s.retired, ∀ p ∈ points r.bytesReceived, r.totalBytesRead ≤ p → s.getBlockIndex p ≠ r.index
  bugs : s.bugs = 0

theorem holds_fresh (C : Nat) (S : Nat → UInt8) : Holds C S ∅ { maxBufferCapacityBytes := C } where
  capacity := rfl
  length_le := Nat.zero_le _
  canonical := canonical_nil
  received := points_nil
  consumed p hp := absurd hp (Nat.not_lt_zero p)
  window p hp := absurd hp (Set.notMem_empty p)
  buffered := by simp
  stored p hp := absurd hp (Set.notMem_empty p)
  retired r hr := by cases hr
  bugs := rfl

theorem Holds.finite (h : Holds C S rcv s) : rcv.Finite := h.received ▸ finite_points s.bytesReceived

theorem Holds.le_of_notMem (h : Holds C S rcv s) (hp : p ∉ rcv) : s.totalBytesRead ≤ p :=
  Nat.le_of_not_lt fun hlt => hp (h.consumed p hlt)

theorem Holds.buffered_union (h : Holds C S rcv s) {frame : Set Nat} (hf : frame.Finite) :
    s.numBytesBuffered + (frame \ rcv).ncard = {p | p ∈ rcv ∪ frame ∧ s.totalBytesRead ≤ p}.ncard := by
  have hdis : ∀ p ∈ {p | p ∈ rcv ∧ s.totalBytesRead ≤ p}, p ∉ frame \ rcv := fun p hp hq => hq.2 hp.1
  have hsplit :
    {p | p ∈ rcv ∪ frame ∧ s.totalBytesRead ≤ p} = {p | p ∈ rcv ∧ s.totalBytesRead ≤ p} ∪ (frame \ rcv) := by
    ext p
    have hp : p ∉ rcv → s.totalBytesRead ≤ p := h.le_of_notMem
    simp only [mem_ofPred_eq, mem_union, mem_sdiff]
    tauto
  rw [hsplit, ncard_union_eq (disjoint_left.2 hdis) (h.finite.subset fun p hp => hp.1)
    (hf.subset sdiff_subset), h.buffered]

section
variable (hcap : kInitialBlockCount ≤ calculateBlockCount C)
include hcap

theorem capacity_pos : 0 < C := by
  rcases Nat.eq_zero_or_pos C with rfl | h
  · exact absurd hcap (by decide)
  · exact h

theorem Holds.bufferIntervals (h : Holds C S rcv s) {o n : Nat} (hn : 0 < n) (hend : o + n ≤ s.totalBytesRead + C)
    {received l : QuicIntervalSet Nat} (hrc : received.Canonical) (hrp : points received = rcv ∪ Set.Ico o (o + n))
    (hlc : l.Canonical) (hlp : points l = Set.Ico o (o + n) \ rcv) :
    (∃ e, ({ s with bytesReceived := received }.bufferIntervals o (piece S o n) l).1 = .error e ∧
      e.invalidState = false) ∨
    ∃ s', { s with bytesReceived := received }.bufferIntervals o (piece S o n) l =
      (.ok (Set.Ico o (o + n) \ rcv).ncard, s') ∧
      Holds C S (rcv ∪ Set.Ico o (o + n)) s' ∧ s'.totalBytesRead = s.totalBytesRead := by
  have hC := capacity_pos hcap
  have hcapacity := h.capacity
  unfold QuicStreamSequencerBuffer.bufferIntervals
  split
  · exact .inl ⟨_, rfl, rfl⟩
  right
  rw [length_piece]
  obtain ⟨hrest, hle, hidx, hbyte⟩ := maybeAddMoreBlocks_spec (s := { s with bytesReceived := received }) (e := o + n)
    (by simpa [maxBlocksCount, hcapacity] using hcap) (by simpa [hcapacity] using hC) (by omega) h.length_le
  generalize { s with bytesReceived := received }.maybeAddMoreBlocks (o + n) = t at hrest hle hidx hbyte
  have htC : t.maxBufferCapacityBytes = C := by rw [hrest]; exact hcapacity
  have htR : t.totalBytesRead = s.totalBytesRead := by rw [hrest]
  obtain ⟨s', hs', hcopied⟩ := copied_copyIntervals (S := S) (o := o) (n := n) hlc (s := t) (by omega)
    (fun p hp => by
      rw [hlp] at hp
      have h1 := hp.1.1
      have h2 := hp.1.2
      have h3 := h.le_of_notMem hp.2
      omega)
    (fun q _ h2 => by
      have := hidx q h2
      rw [getBlockIndex, htC]
      rw [getBlockIndex, hcapacity] at this
      exact this)
  rw [hs', hlp]
  rw [hlp] at hcopied
  have hlen : s'.blocks.length ≤ s.maxBlocksCount := hcopied.length ▸ hle
  obtain ⟨bs, rfl⟩ : ∃ bs, s' = { s with bytesReceived := received, blocks := bs } :=
    ⟨s'.blocks, by
      have hr := hcopied.rest
      rw [hrest] at hr
      exact hr⟩
  refine ⟨_, rfl, ?_, rfl⟩
  exact {
    capacity := hcapacity
    length_le := hlen
    canonical := hrc
    received := hrp
    consumed := fun p hp => .inl (h.consumed p hp)
    window := fun p hp => by
      rcases hp with hp | hp
      · exact h.window p hp
      · exact lt_of_lt_of_le hp.2 hend
    buffered := h.buffered_union (finite_Ico o (o + n))
    stored := fun p hp hR => by
      by_cases hpr : p ∈ rcv
      · -- Its place is not written, for it is the only offset of the window there.
        have hw := h.window p hpr
        have hb := hbyte p
        have hst : s.byteAt p = some (S p) := h.stored p hpr hR
        refine hcopied.kept p (S p) (hb.trans hst) fun q hq he => ?_
        rw [htC] at he
        have heq : q = p := BlockRing.eq_of_mod_eq_of_lap (h.le_of_notMem hq.2) (lt_of_lt_of_le hq.1.2 hend) hR hw he
        exact hq.2 (heq ▸ hpr)
      · exact hcopied.written p ⟨hp.resolve_left hpr, hpr⟩
    retired := h.retired
    bugs := h.bugs }

theorem Holds.onStreamData (h : Holds C S rcv s) (enabled : Bool) (o n : Nat) :
    (∃ e, (s.onStreamData enabled o (piece S o n)).1 = .error e ∧ e.invalidState = false) ∨
    ∃ s', s.onStreamData enabled o (piece S o n) = (.ok (Set.Ico o (o + n) \ rcv).ncard, s') ∧
      Holds C S (rcv ∪ Set.Ico o (o + n)) s' ∧ s'.totalBytesRead = s.totalBytesRead := by
  unfold QuicStreamSequencerBuffer.onStreamData
  dsimp only
  rw [length_piece]
  split
  · exact .inl ⟨_, rfl, rfl⟩
  next hne =>
  have hn : 0 < n := pos_of_ne_zero fun h0 => hne (piece_eq_nil.2 h0)
  split
  · exact .inl ⟨_, rfl, rfl⟩
  next hrange =>
  have hend : o + n ≤ s.totalBytesRead + C := by
    rw [h.capacity] at hrange
    omega
  have hlt : o < o + n := by omega
  have hpoints : points (s.bytesReceived.add ⟨o, o + n⟩) = rcv ∪ Set.Ico o (o + n) := by
    rw [points_add h.canonical, h.received]
  split
  next hnew =>
    -- Nothing has been received from `o` on, or nothing in the range.
    have hdis : ∀ p ∈ Set.Ico o (o + n), p ∉ rcv := by
      intro p hp hpr
      rw [← h.received] at hpr
      rcases Bool.or_eq_true_iff.1 hnew with hlast | hd
      · obtain ⟨last, hl⟩ : ∃ last, s.bytesReceived.getLast? = some last := by
          cases hc : s.bytesReceived.getLast? with
          | none =>
            rw [getLast?_eq_none_iff] at hc
            rw [hc, points_nil] at hpr
            exact absurd hpr (notMem_empty p)
          | some last => exact ⟨last, rfl⟩
        rw [hl, all_some, decide_eq_true_eq] at hlast
        have hmax := lt_getLast_max h.canonical hl hpr
        have hle : last.max ≤ o := hlast
        have hge := hp.1
        omega
      · exact (isDisjoint_iff h.canonical ⟨o, o + n⟩).1 hd p hpr hp
    rw [addOptimizedForAppend_eq h.canonical]
    refine h.bufferIntervals hcap hn hend (canonical_add h.canonical _) hpoints (canonical_singleton hlt) ?_
    ext p
    rw [mem_points_singleton, mem_sdiff, mem_Ico]
    exact ⟨fun hp => ⟨hp, hdis p hp⟩, fun hp => hp.1⟩
  · obtain ⟨hdc, hdp⟩ := difference_spec (canonical_add canonical_nil ⟨o, o + n⟩) h.canonical
    rw [points_add canonical_nil, points_nil, empty_union, h.received] at hdp
    split
    next hnone =>
      rw [hnone, points_nil] at hdp
      have hsub : Set.Ico o (o + n) ⊆ rcv := sdiff_eq_empty.1 hdp.symm
      rw [← hdp, ncard_empty, union_eq_self_of_subset_right hsub]
      exact .inr ⟨s, rfl, h, rfl⟩
    · exact h.bufferIntervals hcap hn hend (canonical_add h.canonical _) hpoints hdc hdp

end

end QuicStreamSequencerBuffer

end Quictun
