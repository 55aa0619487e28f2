import Mathlib.Algebra.Order.Ring.Nat
import Quictun.Run
import Quictun.SequencerBufferReceive

/-!
# Faithful reassembly

Reading moves `total_bytes_read_` on and frees the blocks it leaves behind. A block may hold data of
the next lap, or data after a gap, and then stays. What is read, peeked at or pointed to is always the
stream's own bytes.
-/

namespace Quictun

open QuicIntervalSet BlockRing List Option Set

namespace QuicStreamSequencerBuffer

variable {C : Nat} {S : Nat → UInt8} {rcv : Set Nat} {s s' : QuicStreamSequencerBuffer}

/-! ## The ends of what was received -/

theorem firstMissingByte_spec (hc : s.bytesReceived.Canonical) :
    (∀ p < s.firstMissingByte, p ∈ points s.bytesReceived) ∧ s.firstMissingByte ∉ points s.bytesReceived := by
  unfold firstMissingByte
  cases hb : s.bytesReceived with
  | nil => exact ⟨fun p hp => absurd hp (Nat.not_lt_zero p), by rw [points_nil]; exact notMem_empty 0⟩
  | cons first rest =>
    rw [hb] at hc
    dsimp only
    split
    next hmin =>
      refine ⟨fun p hp => absurd hp (Nat.not_lt_zero p), fun h0 => ?_⟩
      have := le_of_mem_points hc h0
      omega
    next hmin =>
      exact ⟨fun p hp => mem_points_cons.2 (.inl ⟨by omega, hp⟩), max_notMem_points hc mem_cons_self⟩

theorem Holds.le_firstMissingByte (h : Holds C S rcv s) : s.totalBytesRead ≤ s.firstMissingByte := by
  by_contra hlt
  have hspec := (firstMissingByte_spec h.canonical).2
  rw [h.received] at hspec
  exact hspec (h.consumed _ (by omega))

variable {p : Nat}

theorem Holds.mem_of_lt (h : Holds C S rcv s) (hp : p < s.firstMissingByte) : p ∈ rcv :=
  h.received ▸ (firstMissingByte_spec h.canonical).1 p hp

theorem Holds.firstMissingByte_le (h : Holds C S rcv s) : s.firstMissingByte ≤ s.totalBytesRead + C := by
  rcases Nat.eq_zero_or_pos s.firstMissingByte with h0 | hpos
  · omega
  · have := h.window _ (h.mem_of_lt (Nat.sub_lt hpos Nat.one_pos))
    omega

theorem lt_nextExpectedByte (hc : s.bytesReceived.Canonical) (hp : p ∈ points s.bytesReceived) :
    p < s.nextExpectedByte := by
  unfold nextExpectedByte
  cases hl : s.bytesReceived.getLast? with
  | none =>
    rw [getLast?_eq_none_iff.1 hl, points_nil] at hp
    exact absurd hp (notMem_empty p)
  | some last => exact lt_getLast_max hc hl hp

theorem nextExpectedByte_mem (hc : s.bytesReceived.Canonical) (hpos : 0 < s.nextExpectedByte) :
    s.nextExpectedByte - 1 ∈ points s.bytesReceived := by
  unfold nextExpectedByte at hpos ⊢
  cases hl : s.bytesReceived.getLast? with
  | none =>
    rw [hl] at hpos
    exact absurd hpos (Nat.not_lt_zero 0)
  | some last =>
    have hm : last ∈ s.bytesReceived := mem_of_getLast? hl
    have := hc.nonempty last hm
    exact ⟨last, hm, by simp only [map_some, getD_some]; omega, by simp only [map_some, getD_some]; omega⟩

/-! ## Consuming -/

theorem Holds.advance (h : Holds C S rcv s) {n : Nat} (hn : n ≤ s.readableBytes) : Holds C S rcv (s.advance n) := by
  have hle := h.le_firstMissingByte
  have hto : s.totalBytesRead + n ≤ s.firstMissingByte := by
    unfold readableBytes at hn
    omega
  have hsplit : {p | p ∈ rcv ∧ s.totalBytesRead ≤ p} =
      {p | p ∈ rcv ∧ s.totalBytesRead + n ≤ p} ∪ Set.Ico s.totalBytesRead (s.totalBytesRead + n) := by
    ext p
    have hp : p < s.totalBytesRead + n → p ∈ rcv := fun hp => h.mem_of_lt (by omega)
    simp only [mem_ofPred_eq, mem_union, mem_Ico]
    constructor
    · rintro ⟨h1, h2⟩
      by_cases hlt : p < s.totalBytesRead + n
      · exact .inr ⟨h2, hlt⟩
      · exact .inl ⟨h1, by omega⟩
    · rintro (⟨h1, h2⟩ | ⟨h1, h2⟩)
      · exact ⟨h1, by omega⟩
      · exact ⟨hp h2, h1⟩
  have hcount : s.numBytesBuffered = {p | p ∈ rcv ∧ s.totalBytesRead + n ≤ p}.ncard + n := by
    rw [h.buffered, hsplit, ncard_union_eq (disjoint_left.2 fun p h1 h2 => not_lt.2 h1.2 h2.2)
      (h.finite.subset fun p hp => hp.1) (finite_Ico _ _), ncard_Ico, Nat.add_sub_cancel_left]
  exact {
    h with
    consumed := fun p hp => h.mem_of_lt (lt_of_lt_of_le hp hto)
    window := fun p hp => by
      have := h.window p hp
      change p < s.totalBytesRead + n + C
      omega
    buffered := by
      change s.numBytesBuffered - n = _
      rw [hcount, Nat.add_sub_cancel]
      rfl
    stored := fun p hp hR => h.stored p hp (le_trans (Nat.le_add_right _ n) hR) }

theorem Holds.retireBlock (h : Holds C S rcv s) {i : Nat} {b : BufferBlock} (hb : s.block i = some b)
    (hi : ∀ p ∈ rcv, s.totalBytesRead ≤ p → s.getBlockIndex p ≠ i) :
    ∃ s', s.retireBlock i = (true, s') ∧ Holds C S rcv s' ∧ s'.totalBytesRead = s.totalBytesRead ∧
      s'.bytesReceived = s.bytesReceived := by
  have hlt : i < s.blocks.length := by
    by_contra hge
    rw [block, getElem?_eq_none (Nat.le_of_not_lt hge)] at hb
    cases hb
  unfold QuicStreamSequencerBuffer.retireBlock
  rw [hb]
  refine ⟨_, rfl, ?_, rfl, rfl⟩
  exact {
    h with
    length_le := by
      change (s.blocks.set i none).length ≤ _
      rw [length_set]
      exact h.length_le
    stored := fun p hp hR => by
      have hkeep : (s.blocks.set i none)[s.getBlockIndex p]?.join = s.block (s.getBlockIndex p) :=
        (block_set hlt none _).trans (if_neg (Ne.symm (hi p hp hR)))
      have hst := h.stored p hp hR
      unfold byteAt at hst ⊢
      change Option.map _ ((s.blocks.set i none)[s.getBlockIndex p]?.join) = _
      rw [hkeep]
      exact hst
    retired := fun r hr p hp hR => by
      rcases mem_cons.1 hr with rfl | hr
      · exact hi p (h.received ▸ hp) hR
      · exact h.retired r hr p hp hR }

theorem empty_iff : s.empty = true ↔ s.bytesReceived = [] ∨
    ∃ i, s.bytesReceived = [i] ∧ 0 < s.totalBytesRead ∧ i.max = s.totalBytesRead := by
  unfold empty
  cases s.bytesReceived with
  | nil => simp
  | cons i rest =>
    cases rest with
    | nil | cons => simp

theorem bytesAvailableInBlock_eq (s : QuicStreamSequencerBuffer) : s.bytesAvailableInBlock =
    min s.readableBytes (BlockRing.room s.maxBufferCapacityBytes kBlockSizeBytes s.totalBytesRead) :=
  rfl

section
variable (hcap : kInitialBlockCount ≤ calculateBlockCount C)
include hcap

theorem Holds.pos (h : Holds C S rcv s) : 0 < s.maxBufferCapacityBytes := h.capacity ▸ capacity_pos hcap

theorem Holds.available_pos (h : Holds C S rcv s) (hr : 0 < s.readableBytes) : 0 < s.bytesAvailableInBlock := by
  have hC := h.pos hcap
  have := (mod_add_room hC kBlockSizeBytes_pos s.totalBytesRead).2.1
  rw [bytesAvailableInBlock_eq]
  omega

omit hcap in
theorem Holds.block_to_read (h : Holds C S rcv s) (hr : 0 < s.readableBytes) :
    ∃ b, s.block s.nextBlockToRead = some b := by
  have hle := h.le_firstMissingByte
  have hst := h.stored s.totalBytesRead (h.mem_of_lt (by unfold readableBytes at hr; omega)) le_rfl
  obtain ⟨b, hb, -⟩ := map_eq_some_iff.1 hst
  exact ⟨b, hb⟩

/-- Once all that can be read of a block has been read, what is left of it is data after a gap, which
starts in the block, or data of the next lap, which ends in it. -/
theorem Holds.left_in_block (h : Holds C S rcv s) (hr : 0 < s.readableBytes) {p : Nat} (hp : p ∈ rcv)
    (hR : s.totalBytesRead + s.bytesAvailableInBlock ≤ p) (hi : s.getBlockIndex p = s.nextBlockToRead) :
    s.getBlockIndex (s.nextExpectedByte - 1) = s.nextBlockToRead ∨
    (s.getBlockIndex (s.totalBytesRead + s.bytesAvailableInBlock) = s.nextBlockToRead ∧ ∃ first second rest,
      s.bytesReceived = first :: second :: rest ∧ s.getBlockIndex second.min = s.nextBlockToRead) := by
  have hC := h.pos hcap
  have havail := bytesAvailableInBlock_eq s
  have hap := h.available_pos hcap hr
  have hw := h.window p hp
  rw [← h.capacity] at hw
  rw [← h.received] at hp
  have hne := lt_nextExpectedByte h.canonical hp
  have hlast := h.window _ (h.received ▸ nextExpectedByte_mem h.canonical (by omega))
  rw [← h.capacity] at hlast
  rcases same_block hC kBlockSizeBytes_pos (by omega) hw hi with hlt | hwrap
  · -- Before the end of the block: reading has stopped at a gap.
    right
    have hgap : s.bytesAvailableInBlock = s.readableBytes := by omega
    have hfm : s.totalBytesRead + s.bytesAvailableInBlock = s.firstMissingByte := by
      have := h.le_firstMissingByte
      rw [hgap]
      unfold readableBytes
      omega
    refine ⟨(index_eq_of_lt hC kBlockSizeBytes_pos (by omega)).2.1, ?_⟩
    have hcan := h.canonical
    have hfirst := hfm
    unfold firstMissingByte at hfirst
    cases hb : s.bytesReceived with
    | nil =>
      rw [hb, points_nil] at hp
      exact absurd hp (notMem_empty p)
    | cons first rest =>
      rw [hb] at hp hcan hfirst
      dsimp only at hfirst
      split at hfirst
      · omega
      · have hprest : p ∈ points rest := (mem_points_cons.1 hp).resolve_left fun hin => by omega
        cases rest with
        | nil =>
          rw [points_nil] at hprest
          exact absurd hprest (notMem_empty p)
        | cons second rest =>
          obtain ⟨-, hapart, hcan'⟩ := canonical_cons.1 hcan
          have h1 := hapart second mem_cons_self
          have h2 := le_of_mem_points hcan' hprest
          refine ⟨first, second, rest, rfl, ?_⟩
          obtain ⟨d, hd⟩ := Nat.exists_eq_add_of_le (show s.totalBytesRead ≤ second.min by omega)
          rw [hd]
          exact (index_eq_of_lt hC kBlockSizeBytes_pos (by omega)).2.1
  · -- In the next lap, as the last byte received then is.
    left
    exact index_eq_of_wrapped hC kBlockSizeBytes_pos hi hwrap (by omega) (by omega) hlast

theorem Holds.stopped_at_gap (h : Holds C S rcv s)
    (hi : s.getBlockIndex (s.totalBytesRead + s.bytesAvailableInBlock) = s.nextBlockToRead) :
    s.totalBytesRead + s.bytesAvailableInBlock = s.firstMissingByte := by
  have hC := h.pos hcap
  have hcount : kInitialBlockCount ≤ count s.maxBufferCapacityBytes kBlockSizeBytes := h.capacity ▸ hcap
  have hlt := index_lt hC kBlockSizeBytes_pos s.totalBytesRead
  have hnext := (next_block hC kBlockSizeBytes_pos s.totalBytesRead).1
  have hle := h.le_firstMissingByte
  have havail := bytesAvailableInBlock_eq s
  have hne : s.bytesAvailableInBlock ≠ room s.maxBufferCapacityBytes kBlockSizeBytes s.totalBytesRead := by
    intro he
    rw [he] at hi
    have hsame := hnext.symm.trans hi
    change _ = index s.maxBufferCapacityBytes kBlockSizeBytes s.totalBytesRead at hsame
    generalize index s.maxBufferCapacityBytes kBlockSizeBytes s.totalBytesRead = i at hsame hlt
    have h8 : 2 ≤ count s.maxBufferCapacityBytes kBlockSizeBytes := le_trans (by decide) hcount
    by_cases hl : i + 1 = count s.maxBufferCapacityBytes kBlockSizeBytes
    · rw [hl, Nat.mod_self] at hsame
      omega
    · rw [Nat.mod_eq_of_lt (by omega)] at hsame
      omega
  unfold readableBytes at havail
  omega

theorem Holds.retireBlockIfEmpty (h : Holds C S rcv s) (hr : 0 < s.readableBytes) :
    ∃ s', (s.advance s.bytesAvailableInBlock).retireBlockIfEmpty s.nextBlockToRead = (true, s') ∧ Holds C S rcv s' ∧
      s'.totalBytesRead = s.totalBytesRead + s.bytesAvailableInBlock ∧ s'.bytesReceived = s.bytesReceived := by
  have ht := h.advance (n := s.bytesAvailableInBlock) (min_le_left _ _)
  obtain ⟨b, hb⟩ := h.block_to_read hr
  have hleft := fun p hp hR hi => h.left_in_block hcap hr (p := p) hp hR hi
  have hretire := fun hi => ht.retireBlock (i := s.nextBlockToRead) hb hi
  unfold QuicStreamSequencerBuffer.retireBlockIfEmpty
  split
  next hempty =>
    apply hretire
    intro p hp hR _
    rw [← h.received] at hp
    rcases empty_iff.1 hempty with hnil | ⟨i, hone, -, hmax⟩
    · rw [show s.bytesReceived = [] from hnil, points_nil] at hp
      exact notMem_empty p hp
    · rw [show s.bytesReceived = [i] from hone, mem_points_singleton] at hp
      exact absurd hR (not_le.2 (hmax ▸ hp.2))
  next hempty =>
  split
  · exact ⟨_, rfl, ht, rfl, rfl⟩
  next hlast =>
  split
  next hsame =>
    split
    next first second rest hrec =>
      split
      · exact ⟨_, rfl, ht, rfl, rfl⟩
      next hsecond =>
        apply hretire
        intro p hp hR hi
        rcases hleft p hp hR hi with hl | ⟨-, first', second', rest', hrec', hs⟩
        · exact hlast hl
        · rw [show s.bytesReceived = first :: second :: rest from hrec] at hrec'
          cases hrec'
          exact hsecond hs
    next hrec =>
      exfalso
      -- Without a second interval nothing would be left.
      have hgap := h.stopped_at_gap hcap hsame
      have havail := h.available_pos hcap hr
      cases hb : s.bytesReceived with
      | nil =>
        unfold firstMissingByte at hgap
        rw [hb] at hgap
        dsimp only at hgap
        omega
      | cons i rest =>
        cases rest with
        | nil =>
          unfold firstMissingByte at hgap
          rw [hb] at hgap
          dsimp only at hgap
          split at hgap
          · omega
          · refine hempty (empty_iff.2 (.inr ⟨i, hb, ?_, hgap.symm⟩))
            change 0 < s.totalBytesRead + s.bytesAvailableInBlock
            omega
        | cons j rest => exact hrec i j rest hb
  next hother =>
    apply hretire
    intro p hp hR hi
    rcases hleft p hp hR hi with hl | ⟨hs, -⟩
    · exact hlast hl
    · exact hother hs

theorem Holds.consume (h : Holds C S rcv s) {n : Nat} (hn : 0 < n) (hle : n ≤ s.bytesAvailableInBlock) :
    ∃ s', s.consume n = (true, s') ∧ Holds C S rcv s' ∧ s'.totalBytesRead = s.totalBytesRead + n ∧
      s'.bytesReceived = s.bytesReceived := by
  have hread : n ≤ s.readableBytes := le_trans hle (min_le_left _ _)
  unfold QuicStreamSequencerBuffer.consume
  split
  next he =>
    subst he
    exact h.retireBlockIfEmpty hcap (by omega)
  · exact ⟨_, rfl, h.advance hread, rfl, rfl⟩

/-! ## Reading -/

structure Reads (C : Nat) (S : Nat → UInt8) (rcv : Set Nat) (s : QuicStreamSequencerBuffer) (n : Nat) (r : ReadResult) :
    Prop where
  error : r.error = none
  bytes : r.bytes = piece S s.totalBytesRead n
  holds : Holds C S rcv r.buffer
  totalBytesRead : r.buffer.totalBytesRead = s.totalBytesRead + n
  bytesReceived : r.buffer.bytesReceived = s.bytesReceived

omit hcap in
theorem Holds.reads_nothing (h : Holds C S rcv s) : Reads C S rcv s 0 { buffer := s } := ⟨rfl, rfl, h, rfl, rfl⟩

omit hcap in
theorem readableBytes_of_eq {n : Nat} (ht : s'.totalBytesRead = s.totalBytesRead + n)
    (hb : s'.bytesReceived = s.bytesReceived) :
    s'.readableBytes = s.readableBytes - n := by
  unfold readableBytes firstMissingByte
  rw [ht, hb, Nat.sub_add_eq]

omit hcap in
theorem Reads.append {m n : Nat} {b : Bytes} {r : ReadResult} (hb : b = piece S s.totalBytesRead m)
    (ht : s'.totalBytesRead = s.totalBytesRead + m) (hr' : s'.bytesReceived = s.bytesReceived)
    (hr : Reads C S rcv s' n r) :
    Reads C S rcv s (m + n) { r with bytes := b ++ r.bytes } where
  error := hr.error
  bytes := by
    rw [hb, hr.bytes, ht, piece_add]
  holds := hr.holds
  totalBytesRead := by
    change r.buffer.totalBytesRead = _
    rw [hr.totalBytesRead, ht, add_assoc]
  bytesReceived := hr.bytesReceived.trans hr'

theorem Holds.readDest : ∀ (turns dest : Nat) {s : QuicStreamSequencerBuffer}, Holds C S rcv s → dest ≤ turns →
    Reads C S rcv s (min dest s.readableBytes) (readDest turns s dest)
  | 0, dest, s, h, hd => by
    rw [Nat.le_zero.1 hd, Nat.zero_min]
    exact h.reads_nothing
  | turns + 1, dest, s, h, hd => by
    unfold QuicStreamSequencerBuffer.readDest
    split
    next hz =>
      have h0 : min dest s.readableBytes = 0 := by omega
      rw [h0]
      exact h.reads_nothing
    next hz =>
      have hC := h.pos hcap
      have havail := h.available_pos hcap (by omega)
      have hle : s.bytesAvailableInBlock ≤ s.readableBytes := min_le_left _ _
      obtain ⟨b, hb⟩ := h.block_to_read (by omega)
      generalize hn : min s.bytesAvailableInBlock dest = n
      obtain ⟨t, ht, hht, htR, htb⟩ := h.consume hcap (n := n) (by omega) (by omega)
      -- What is copied is in one block.
      have hbytes : b.read s.readOffset n = piece S s.totalBytesRead n := by
        have hroom : n ≤ s.getBlockCapacity s.nextBlockToRead - s.readOffset :=
          le_trans (show n ≤ s.bytesAvailableInBlock by omega) (min_le_right _ _)
        have hreg := region_eq_piece (S := S) (p := s.totalBytesRead) (n := n) hC (by omega) hroom
          (fun q h1 h2 => h.stored q (h.mem_of_lt (by unfold readableBytes at hle; omega)) h1)
        unfold region at hreg
        rw [show s.block (s.getBlockIndex s.totalBytesRead) = some b from hb, map_some] at hreg
        exact some.inj hreg
      rw [hb]
      dsimp only
      rw [ht, if_pos rfl]
      have hrest := hht.readDest turns (dest - n) (by omega)
      rw [readableBytes_of_eq htR htb] at hrest
      have hsum : min dest s.readableBytes = n + min (dest - n) (s.readableBytes - n) := by omega
      rw [hsum]
      exact Reads.append hbytes htR htb hrest

theorem Holds.readv : ∀ (dests : List Nat) {s : QuicStreamSequencerBuffer}, Holds C S rcv s →
    Reads C S rcv s (min dests.sum s.readableBytes) (readv s dests)
  | [], s, h => by
    rw [List.sum_nil, Nat.zero_min]
    exact h.reads_nothing
  | dest :: dests, s, h => by
    unfold QuicStreamSequencerBuffer.readv
    split
    next h0 =>
      rw [h0, Nat.min_zero]
      exact h.reads_nothing
    · have hd := h.readDest hcap dest dest le_rfl
      dsimp only
      rw [hd.error]
      have hrest := hd.holds.readv dests
      rw [readableBytes_of_eq hd.totalBytesRead hd.bytesReceived] at hrest
      have hsum : min (dest :: dests).sum s.readableBytes =
          min dest s.readableBytes + min dests.sum (s.readableBytes - min dest s.readableBytes) := by
        rw [sum_cons]
        omega
      rw [hsum]
      exact Reads.append hd.bytes hd.totalBytesRead hd.bytesReceived hrest

theorem Holds.markLoop : ∀ (turns n : Nat) {s : QuicStreamSequencerBuffer}, Holds C S rcv s → n ≤ turns →
    n ≤ s.readableBytes →
    Holds C S rcv (markLoop turns s n) ∧ (markLoop turns s n).totalBytesRead = s.totalBytesRead + n ∧
      (markLoop turns s n).bytesReceived = s.bytesReceived
  | 0, n, s, h, hn, _ => by
    rw [Nat.le_zero.1 hn]
    exact ⟨h, rfl, rfl⟩
  | turns + 1, n, s, h, hn, hr => by
    unfold QuicStreamSequencerBuffer.markLoop
    split
    next h0 =>
      rw [h0]
      exact ⟨h, rfl, rfl⟩
    · have havail := h.available_pos hcap (by omega)
      dsimp only
      generalize hm : min n s.bytesAvailableInBlock = m
      obtain ⟨t, ht, hht, htR, htb⟩ := h.consume hcap (n := m) (by omega) (by omega)
      rw [ht]
      have hread := readableBytes_of_eq htR htb
      obtain ⟨h1, h2, h3⟩ := hht.markLoop turns (n - m) (by omega) (by omega)
      refine ⟨h1, ?_, h3.trans htb⟩
      rw [h2, htR]
      omega

theorem Holds.markConsumed (h : Holds C S rcv s) (n : Nat) :
    (s.markConsumed n).1 = decide (n ≤ s.readableBytes) ∧ Holds C S rcv (s.markConsumed n).2 ∧
      (s.markConsumed n).2.totalBytesRead = (if n ≤ s.readableBytes then s.totalBytesRead + n else s.totalBytesRead) ∧
      (s.markConsumed n).2.bytesReceived = s.bytesReceived := by
  unfold QuicStreamSequencerBuffer.markConsumed
  by_cases hn : n ≤ s.readableBytes
  · rw [if_neg (not_lt.2 hn), if_pos hn, decide_eq_true hn]
    exact ⟨rfl, h.markLoop hcap n n le_rfl hn⟩
  · rw [if_pos (Nat.lt_of_not_le hn), if_neg hn, decide_eq_false hn]
    exact ⟨rfl, h, rfl, rfl⟩

/-! ## Looking -/

theorem Holds.region (h : Holds C S rcv s) {p n : Nat} (hp : s.totalBytesRead ≤ p) (hn : 0 < n)
    (hend : p + n ≤ s.firstMissingByte)
    (hroom : n ≤ s.getBlockCapacity (s.getBlockIndex p) - s.getInBlockOffset p) :
    s.region (s.getBlockIndex p) (s.getInBlockOffset p) n = some (piece S p n) :=
  region_eq_piece (h.pos hcap) hn hroom
    fun q h1 h2 => h.stored q (h.mem_of_lt (by omega)) (by omega)

theorem Holds.peekRegion (h : Holds C S rcv s) {p : Nat} (hp : s.totalBytesRead ≤ p) (hm : p < s.firstMissingByte) :
    ∃ n, 0 < n ∧ p + n ≤ s.firstMissingByte ∧ s.peekRegion p = (true, some (piece S p n)) := by
  have hC := h.pos hcap
  have hfm := h.firstMissingByte_le
  rw [← h.capacity] at hfm
  obtain ⟨d, hd⟩ := Nat.exists_eq_add_of_le (le_of_lt hm)
  have hroom := (mod_add_room hC kBlockSizeBytes_pos p).2.1
  unfold QuicStreamSequencerBuffer.peekRegion
  rw [if_neg (not_lt.2 hp), if_neg (not_le.2 hm)]
  dsimp only
  split
  next hc =>
    -- The first missing byte is further on in the block.
    have hne : d ≠ s.maxBufferCapacityBytes := by
      intro he
      rw [hd, he, getInBlockOffset, getInBlockOffset, Nat.add_mod_right] at hc
      exact lt_irrefl _ hc.2
    have hlt : d < room s.maxBufferCapacityBytes kBlockSizeBytes p := by
      have := (lt_room_iff hC kBlockSizeBytes_pos (le_of_lt hm) (by omega)).2 ⟨hc.1.symm, le_of_lt hc.2⟩
      omega
    have hin : s.getInBlockOffset s.firstMissingByte = s.getInBlockOffset p + d :=
      hd ▸ (index_eq_of_lt hC kBlockSizeBytes_pos hlt).2.2
    rw [hin, Nat.add_sub_cancel_left]
    refine ⟨d, by omega, by omega, ?_⟩
    rw [h.region hcap hp (by omega) (by omega) (le_of_lt hlt)]
  next hc =>
    have hle : room s.maxBufferCapacityBytes kBlockSizeBytes p ≤ d := by
      by_contra hlt
      obtain ⟨-, hi, ho⟩ := index_eq_of_lt hC kBlockSizeBytes_pos (p := p) (d := d) (by omega)
      rw [← hd] at hi ho
      apply hc
      refine ⟨hi.symm, ?_⟩
      change _ < inBlock s.maxBufferCapacityBytes kBlockSizeBytes s.firstMissingByte
      rw [ho]
      change inBlock s.maxBufferCapacityBytes kBlockSizeBytes p < _
      omega
    refine ⟨_, hroom, by omega, ?_⟩
    rw [← h.region hcap hp hroom (by omega) le_rfl]
    rfl

theorem Holds.wholeBlocks (h : Holds C S rcv s) (start iovLen : Nat) : ∀ (turns u : Nat) {q : Nat}, iovLen ≤ turns + u →
    s.totalBytesRead ≤ q → q < s.firstMissingByte → s.getInBlockOffset q = 0 →
    s.getBlockIndex q = (start + u) % s.maxBlocksCount →
    ∃ rs : List Bytes, s.wholeBlocks start (s.getBlockIndex (s.firstMissingByte - 1)) iovLen turns u =
      (rs.map some, u + rs.length) ∧
      (∀ r ∈ rs, r ≠ []) ∧ rs.flatten = piece S q rs.flatten.length ∧ q + rs.flatten.length < s.firstMissingByte ∧
      s.getInBlockOffset (q + rs.flatten.length) = 0 ∧
      (u + rs.length < iovLen → s.getBlockIndex (q + rs.flatten.length) = s.getBlockIndex (s.firstMissingByte - 1))
  | 0, u, q, ht, _, hm, h0, _ => ⟨[], rfl, by simp, rfl, hm, h0, fun hlt => by simp at hlt; omega⟩
  | turns + 1, u, q, ht, hq, hm, h0, hi => by
    have hC := h.pos hcap
    unfold QuicStreamSequencerBuffer.wholeBlocks
    rw [← hi]
    dsimp only
    split
    next hc =>
      have hroom := (BlockRing.mod_add_room hC kBlockSizeBytes_pos q).2.1
      have hcapacity :
        s.getBlockCapacity (s.getBlockIndex q) = BlockRing.room s.maxBufferCapacityBytes kBlockSizeBytes q := by
        change _ = s.getBlockCapacity (s.getBlockIndex q) - s.getInBlockOffset q
        rw [h0, Nat.sub_zero]
      -- The last readable byte is in another block.
      have hend : q + room s.maxBufferCapacityBytes kBlockSizeBytes q < s.firstMissingByte := by
        by_contra hge
        obtain ⟨d, hd⟩ := Nat.exists_eq_add_of_le (show q ≤ s.firstMissingByte - 1 by omega)
        apply hc.1
        rw [hd]
        exact (index_eq_of_lt hC kBlockSizeBytes_pos (by omega)).2.1.symm
      have hreg := h.region hcap (p := q) hq hroom (by omega) (by rw [h0, hcapacity, Nat.sub_zero])
      rw [h0] at hreg
      obtain ⟨hnext, hzero⟩ := next_block hC kBlockSizeBytes_pos q
      have hidx : s.getBlockIndex (q + room s.maxBufferCapacityBytes kBlockSizeBytes q) =
          (start + (u + 1)) % s.maxBlocksCount := by
        refine hnext.trans ?_
        change (s.getBlockIndex q + 1) % s.maxBlocksCount = _
        rw [hi, Nat.mod_add_mod, add_assoc]
      obtain ⟨rs, hrs, hne, hflat, hlt, hz, hlast⟩ := h.wholeBlocks start iovLen turns (u + 1) (by omega)
        (by omega) hend hzero hidx
      rw [hrs, hcapacity, hreg]
      refine ⟨piece S q (room s.maxBufferCapacityBytes kBlockSizeBytes q) :: rs, ?_, ?_, ?_, ?_, ?_, ?_⟩
      · simp [add_assoc, add_comm 1]
      · intro r hr
        rcases mem_cons.1 hr with rfl | hr
        · rw [Ne, piece_eq_nil]
          omega
        · exact hne r hr
      · rw [flatten_cons, length_append, length_piece, piece_add, ← hflat]
      · rw [flatten_cons, length_append, length_piece, ← add_assoc]
        exact hlt
      · rw [flatten_cons, length_append, length_piece, ← add_assoc]
        exact hz
      · rw [flatten_cons, length_append, length_piece, ← add_assoc, length_cons]
        exact fun hu => hlast (by omega)
    next hc =>
      refine ⟨[], rfl, by simp, rfl, hm, h0, fun hlt => ?_⟩
      by_contra hne
      exact hc ⟨hne, hlt⟩

theorem Holds.lastRegion (h : Holds C S rcv s) {q : Nat} (hq : s.totalBytesRead ≤ q) (hm : q < s.firstMissingByte)
    (h0 : s.getInBlockOffset q = 0) (hi : s.getBlockIndex q = s.getBlockIndex (s.firstMissingByte - 1)) :
    s.region (s.getBlockIndex (s.firstMissingByte - 1)) 0 (s.getInBlockOffset (s.firstMissingByte - 1) + 1) =
      some (piece S q (s.firstMissingByte - q)) := by
  have hC := h.pos hcap
  have hfm := h.firstMissingByte_le
  rw [← h.capacity] at hfm
  obtain ⟨d, hd⟩ := Nat.exists_eq_add_of_le (show q ≤ s.firstMissingByte - 1 by omega)
  have hlt : d < room s.maxBufferCapacityBytes kBlockSizeBytes q := by
    rcases same_block hC kBlockSizeBytes_pos (p := q) (q := s.firstMissingByte - 1) (by omega)
      (by omega) hi.symm with hl | hw
    · omega
    · change _ < s.getInBlockOffset q at hw
      rw [h0] at hw
      exact absurd hw (Nat.not_lt_zero _)
  have ho : s.getInBlockOffset (s.firstMissingByte - 1) = s.getInBlockOffset q + d :=
    hd ▸ (index_eq_of_lt hC kBlockSizeBytes_pos hlt).2.2
  have hlen : s.firstMissingByte - q = d + 1 := by omega
  have hreg := h.region hcap (p := q) (n := d + 1) hq (by omega) (by omega) hlt
  rw [h0] at hreg
  rw [ho, h0, zero_add, ← hi, hlen]
  exact hreg

theorem Holds.getReadableRegions (h : Holds C S rcv s) (iovLen : Nat) : ∃ rs : List Bytes,
    s.getReadableRegions iovLen = rs.map some ∧ (∀ r ∈ rs, r ≠ []) ∧
    rs.flatten = piece S s.totalBytesRead rs.flatten.length ∧ rs.flatten.length ≤ s.readableBytes ∧
    (rs.length < iovLen → rs.flatten.length = s.readableBytes) := by
  have hC := h.pos hcap
  have hfm := h.firstMissingByte_le
  rw [← h.capacity] at hfm
  have hle := h.le_firstMissingByte
  have hread : s.readableBytes = s.firstMissingByte - s.totalBytesRead := rfl
  have hroom := (mod_add_room hC kBlockSizeBytes_pos s.totalBytesRead).2.1
  unfold QuicStreamSequencerBuffer.getReadableRegions
  split
  next h0 =>
    rw [h0]
    exact ⟨[], rfl, by simp, rfl, le_rfl, fun _ => rfl⟩
  next h0 =>
  have hblock :=
    lt_room_iff hC kBlockSizeBytes_pos (p := s.totalBytesRead) (q := s.firstMissingByte - 1) (by omega) (by omega)
  dsimp only
  split
  next hc =>
    have hlt := hblock.2 ⟨hc.1.symm, hc.2⟩
    have hreg := h.region hcap (p := s.totalBytesRead) (n := s.readableBytes) le_rfl (by omega) (by omega)
      (show s.readableBytes ≤ room _ _ _ by omega)
    refine ⟨[piece S s.totalBytesRead s.readableBytes], ?_, ?_, by simp, by simp, by simp⟩
    · change [s.region (s.getBlockIndex s.totalBytesRead) (s.getInBlockOffset s.totalBytesRead) s.readableBytes] = _
      rw [hreg]
      rfl
    · intro r hr
      rw [mem_singleton.1 hr, Ne, piece_eq_nil]
      omega
  next hc =>
    -- More than the rest of the first block can be read.
    have hge := Nat.le_of_not_lt fun hlt => hc ⟨(hblock.1 hlt).1.symm, (hblock.1 hlt).2⟩
    generalize hR : room s.maxBufferCapacityBytes kBlockSizeBytes s.totalBytesRead = room at hroom hge
    have hfirst := h.region hcap (p := s.totalBytesRead) (n := room) le_rfl hroom (by omega) (le_of_eq hR.symm)
    obtain ⟨hnext, hzero⟩ := next_block hC kBlockSizeBytes_pos s.totalBytesRead
    rw [hR] at hnext hzero
    obtain ⟨rs, hrs, hne, hflat, hlt, hz, hlast⟩ := h.wholeBlocks hcap s.nextBlockToRead iovLen iovLen 1
      (q := s.totalBytesRead + room) (by omega) (by omega) (by omega) hzero hnext
    have hfirst' : s.region s.nextBlockToRead s.readOffset (s.getBlockCapacity s.nextBlockToRead - s.readOffset) =
        some (piece S s.totalBytesRead room) := hR ▸ hfirst
    rw [hrs, hfirst']
    have hpiece : piece S s.totalBytesRead room ≠ [] := by
      rw [Ne, piece_eq_nil]
      omega
    split
    next hu =>
      rw [h.lastRegion hcap (by omega) hlt hz (hlast hu)]
      refine ⟨piece S s.totalBytesRead room :: (rs ++ [piece S (s.totalBytesRead + room + rs.flatten.length)
        (s.firstMissingByte - (s.totalBytesRead + room + rs.flatten.length))]), by simp, ?_, ?_, ?_, fun _ => ?_⟩
      · intro r hr
        rcases mem_cons.1 hr with rfl | hr
        · exact hpiece
        · rcases mem_append.1 hr with hr | hr
          · exact hne r hr
          · rw [mem_singleton.1 hr, Ne, piece_eq_nil]
            omega
      · simp only [flatten_cons, flatten_append, flatten_nil, append_nil, length_append, length_piece]
        rw [piece_add, piece_add, ← hflat]
      · simp only [flatten_cons, flatten_append, flatten_nil, append_nil, length_append, length_piece]
        omega
      · simp only [flatten_cons, flatten_append, flatten_nil, append_nil, length_append, length_piece]
        omega
    · rw [append_nil]
      refine ⟨piece S s.totalBytesRead room :: rs, rfl, ?_, ?_, ?_, fun hlen => ?_⟩
      · exact forall_mem_cons.2 ⟨hpiece, hne⟩
      · rw [flatten_cons, length_append, length_piece, piece_add, ← hflat]
      · rw [flatten_cons, length_append, length_piece]
        omega
      · rw [length_cons] at hlen
        omega

end

/-! ## Runs -/

inductive Ev
  | onStreamData (offset : Nat) (data : Bytes)
  | readv (dests : List Nat)
  | markConsumed (bytes : Nat)
  | peekRegion (offset : Nat)
  | getReadableRegions (iovLen : Nat)
deriving DecidableEq

def accepted : Except BufferError Nat × QuicStreamSequencerBuffer → Option QuicStreamSequencerBuffer
  | (.ok _, s) => some s
  | (.error _, _) => none

/-- All frames are of the stream `S`. A run ends with the first error of `OnStreamData()`. -/
def step (enabled : Bool) (S : Nat → UInt8) (s : QuicStreamSequencerBuffer) : Ev → Option QuicStreamSequencerBuffer
  | .onStreamData o data => if data = piece S o data.length then accepted (s.onStreamData enabled o data) else none
  | .readv dests => some (s.readv dests).buffer
  | .markConsumed n => some (s.markConsumed n).2
  | .peekRegion _ => some s
  | .getReadableRegions _ => some s

def Ev.range : Ev → Set Nat
  | .onStreamData o data => Set.Ico o (o + data.length)
  | .readv _ | .markConsumed _ | .peekRegion _ | .getReadableRegions _ => ∅

def receivedBy (es : List Ev) : Set Nat := {p | ∃ e ∈ es, p ∈ e.range}

theorem receivedBy_append (es : List Ev) (e : Ev) : receivedBy (es ++ [e]) = receivedBy es ∪ e.range := by
  ext p
  simp [receivedBy, or_and_right, exists_or]

variable {enabled : Bool} {es : List Ev}

section
variable (hcap : kInitialBlockCount ≤ calculateBlockCount C)
include hcap

theorem Holds.step {e : Ev}
    (h : Holds C S (receivedBy es) s) (hs : step enabled S s e = some s') : Holds C S (receivedBy (es ++ [e])) s' := by
  rw [receivedBy_append]
  cases e with
  | onStreamData o data =>
    obtain ⟨hg, hs⟩ := ite_none_right_eq_some.1 hs
    rw [hg] at hs
    rcases h.onStreamData hcap enabled o data.length with ⟨e, he, -⟩ | ⟨t, ht, hht, -⟩
    · generalize s.onStreamData enabled o (piece S o data.length) = r at he hs
      obtain ⟨r, t⟩ := r
      cases he
      cases hs
    · rw [ht] at hs
      cases hs
      exact hht
  | readv dests =>
    cases hs
    rw [Ev.range, union_empty]
    exact (h.readv hcap dests).holds
  | markConsumed n =>
    cases hs
    rw [Ev.range, union_empty]
    exact (h.markConsumed hcap n).2.1
  | peekRegion | getReadableRegions =>
    cases hs
    rw [Ev.range, union_empty]
    exact h

theorem holds_run (hr : Lts.run (step enabled S) { maxBufferCapacityBytes := C } es = some s) :
    Holds C S (receivedBy es) s := by
  have h0 : Holds C S (receivedBy []) { maxBufferCapacityBytes := C } := by
    rw [show receivedBy [] = ∅ by simp [receivedBy]]
    exact holds_fresh C S
  exact Lts.run_hist (I := fun es s => Holds C S (receivedBy es) s) (fun es s e s' h hs => h.step hcap hs) h0 hr

/-- **Faithful reassembly.** -/
theorem reassembles {enabled : Bool} {es : List Ev}
    (hr : Lts.run (step enabled S) { maxBufferCapacityBytes := C } es = some s) :
    -- `ReadableBytes()` and `BytesBuffered()`
    (∀ p < s.totalBytesRead + s.readableBytes, p ∈ receivedBy es) ∧ s.totalBytesRead + s.readableBytes ∉ receivedBy es ∧
    s.numBytesBuffered = {p | p ∈ receivedBy es ∧ s.totalBytesRead ≤ p}.ncard ∧
    -- `OnStreamData()`
    (∀ o n, (∃ e, (s.onStreamData enabled o (piece S o n)).1 = .error e ∧ e.invalidState = false) ∨
      (s.onStreamData enabled o (piece S o n)).1 = .ok (Set.Ico o (o + n) \ receivedBy es).ncard) ∧
    -- `Readv()` and `MarkConsumed()`
    (∀ dests, (s.readv dests).error = none ∧
      (s.readv dests).bytes = piece S s.totalBytesRead (min dests.sum s.readableBytes) ∧
      (s.readv dests).buffer.totalBytesRead = s.totalBytesRead + min dests.sum s.readableBytes) ∧
    (∀ n, (s.markConsumed n).1 = decide (n ≤ s.readableBytes) ∧ (s.markConsumed n).2.totalBytesRead =
      if n ≤ s.readableBytes then s.totalBytesRead + n else s.totalBytesRead) ∧
    -- `PeekRegion()` and `GetReadableRegions()`
    (∀ p, s.totalBytesRead ≤ p → p < s.totalBytesRead + s.readableBytes →
      ∃ n, 0 < n ∧ p + n ≤ s.totalBytesRead + s.readableBytes ∧ s.peekRegion p = (true, some (piece S p n))) ∧
    (∀ p, p < s.totalBytesRead ∨ s.totalBytesRead + s.readableBytes ≤ p → s.peekRegion p = (false, none)) ∧
    (∀ n, ∃ rs : List Bytes, s.getReadableRegions n = rs.map some ∧ (∀ r ∈ rs, r ≠ []) ∧
      rs.flatten = piece S s.totalBytesRead rs.flatten.length ∧ rs.flatten.length ≤ s.readableBytes ∧
      (rs.length < n → rs.flatten.length = s.readableBytes)) ∧
    -- Blocks
    (∀ r ∈ s.retired, ∀ p ∈ points r.bytesReceived, r.totalBytesRead ≤ p → s.getBlockIndex p ≠ r.index) ∧
      s.bugs = 0 := by
  have h := holds_run hcap hr
  have hfm : s.totalBytesRead + s.readableBytes = s.firstMissingByte := Nat.add_sub_cancel' h.le_firstMissingByte
  rw [hfm]
  refine ⟨fun p hp => h.mem_of_lt hp, h.received ▸ (firstMissingByte_spec h.canonical).2, h.buffered, fun o n => ?_,
    fun dests => ?_, fun n => ?_, fun p h1 h2 => h.peekRegion hcap h1 h2, fun p hp => ?_, h.getReadableRegions hcap,
      h.retired, h.bugs⟩
  · rcases h.onStreamData hcap enabled o n with he | ⟨t, ht, -⟩
    · exact .inl he
    · exact .inr (by rw [ht])
  · have hread := h.readv hcap dests
    exact ⟨hread.error, hread.bytes, hread.totalBytesRead⟩
  · obtain ⟨h1, -, h2, -⟩ := h.markConsumed hcap n
    exact ⟨h1, h2⟩
  · unfold QuicStreamSequencerBuffer.peekRegion
    by_cases hlt : p < s.totalBytesRead
    · rw [if_pos hlt]
    · rw [if_neg hlt, if_pos (hp.resolve_left hlt)]

end

theorem reassembles_outOfOrder : ∃ s : QuicStreamSequencerBuffer,
    Lts.run (step true fun p => UInt8.ofNat p) { maxBufferCapacityBytes := 60000 } [.onStreamData 2 [2, 3, 4],
      .onStreamData 0 [0, 1, 2], .readv [1, 2]] = some s ∧
    s.totalBytesRead = 3 ∧ s.readableBytes = 2 ∧ (s.readv [5]).error = none ∧ (s.readv [5]).bytes = [3, 4] := by
  have hr : Lts.run (step true fun p => UInt8.ofNat p) { maxBufferCapacityBytes := 60000 } [.onStreamData 2 [2, 3, 4],
      .onStreamData 0 [0, 1, 2], .readv [1, 2]] = some _ := rfl
  obtain ⟨-, -, -, -, hread, -⟩ := reassembles (by decide) hr
  exact ⟨_, hr, rfl, rfl, (hread [5]).1, (hread [5]).2.1⟩

end QuicStreamSequencerBuffer

end Quictun
