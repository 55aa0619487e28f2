import Quictun.QuicIntervalSetCount
import Quictun.Run
import Quictun.SendBufferSlices

/-!
# What the send buffer promises

`Holds A P` ties the buffer to the set `A` of bytes acknowledged so far and the set `P` of bytes to
be sent again. Each call takes it to the sets that the call stands for, and a whole run to the sets
that its events add up to.
-/

namespace Quictun

open QuicIntervalSet List BufferedSliceInlining Option

namespace QuicStreamSendBufferInlining

structure Holds (A P : Set Nat) (s : QuicStreamSendBufferInlining) : Prop where
  canonicalAcked : s.bytesAcked.Canonical
  canonicalPending : s.pendingRetransmissions.Canonical
  acked : points s.bytesAcked = A
  pending : points s.pendingRetransmissions = P
  disjoint : ∀ p ∈ P, p ∉ A
  contiguous : Contiguous 0 s.slices
  streamOffset : s.streamOffset = (bytes s.slices).length
  container : s.intervalDeque.container = (s.slices.dropWhile (full s.bytesAcked)).map (entry s.bytesAcked)
  valid : s.intervalDeque.Valid
  owns : Owns s.ownedSlices s.bytesAcked s.slices
  written_le : s.streamBytesWritten ≤ s.streamOffset
  acked_lt : ∀ p ∈ A, p < s.streamBytesWritten
  outstanding : s.streamBytesOutstanding + A.ncard = s.streamBytesWritten

variable {A P : Set Nat} {s : QuicStreamSendBufferInlining}

theorem holds_fresh : Holds ∅ ∅ {} where
  canonicalAcked := canonical_nil
  canonicalPending := canonical_nil
  acked := points_nil
  pending := points_nil
  disjoint p hp := by cases hp
  contiguous := trivial
  streamOffset := rfl
  container := rfl
  valid c hc := by cases hc
  owns o d := by simp
  written_le := le_refl 0
  acked_lt p hp := by cases hp
  outstanding := by simp

/-! ## Saving -/

theorem Holds.not_full (h : Holds A P s) {d : Bytes} (hd : d ≠ []) : full s.bytesAcked (s.streamOffset, d) = false := by
  rw [Bool.eq_false_iff]
  intro hf
  have hp := (full_iff h.canonicalAcked hd).1 hf (Set.mem_Ico.2 ⟨le_rfl, Nat.lt_add_of_pos_right (length_pos_iff.2 hd)⟩)
  rw [h.acked] at hp
  exact absurd (h.acked_lt _ hp) (not_lt.2 h.written_le)

theorem dropWhile_append_of_not {α : Type*} {q : α → Bool} {x : α} (hx : q x = false) : ∀ l : List α,
    (l ++ [x]).dropWhile q = l.dropWhile q ++ [x]
  | [] => by simp [hx]
  | y :: l => by
    rw [cons_append, dropWhile_cons, dropWhile_cons, dropWhile_append_of_not hx l]
    split <;> rfl

theorem Holds.saveMemSlice (h : Holds A P s) (d : Bytes) :
    Holds A P (s.saveMemSlice d) ∧ bytes (s.saveMemSlice d).slices = bytes s.slices ++ d := by
  unfold QuicStreamSendBufferInlining.saveMemSlice
  split
  next hd =>
    rw [hd, append_nil]
    exact ⟨h, rfl⟩
  next hd =>
  have hpos := length_pos_iff.2 hd
  have hf := h.not_full hd
  have hoff := h.streamOffset
  have hnew : ∀ d', (s.streamOffset, d') ∉ s.slices := by
    intro d' hm
    have hb := h.contiguous.bounds _ hm
    have hpos' := length_pos_iff.2 hb.2.1
    simp only at hb hpos'
    omega
  refine ⟨?_, by simp [bytes]⟩
  exact {
    h with
    contiguous := contiguous_append.2 ⟨h.contiguous, by rw [hoff, zero_add], hd, trivial⟩
    streamOffset := by simp [bytes, hoff]
    container := by
      have hi : (interval ⟨.of d, s.streamOffset⟩).empty = false := by
        rw [QuicInterval.empty_eq_false, interval, size_of]
        exact Nat.lt_add_of_pos_right hpos
      simp only [QuicIntervalDeque.pushBack, hi, Bool.false_eq_true, if_false]
      rw [h.container, dropWhile_append_of_not hf, map_append, map_singleton, entry, hf]
      rfl
    valid := h.valid.pushBack _
    owns := by
      intro o' d'
      have hnone : s.ownedSlices.lookup s.streamOffset = none := by
        rw [eq_none_iff_forall_ne_some]
        exact fun d' hl => hnew d' ((h.owns _ d').1 hl).1
      rw [mem_append, mem_singleton, Prod.mk.injEq]
      split
      next hlen =>
        rw [h.owns o' d']
        refine ⟨fun hx => ⟨.inl hx.1, hx.2⟩, fun hx => ⟨?_, hx.2⟩⟩
        rcases hx.1 with hm | ⟨-, rfl⟩
        · exact hm
        · exact absurd hx.2.1 (not_lt.2 hlen)
      next hlen =>
        rw [FlatMap.lookup_emplace_of_none hnone]
        by_cases ho : o' = s.streamOffset
        · subst ho
          rw [if_pos rfl, some.injEq]
          constructor
          · rintro rfl
            exact ⟨.inr ⟨rfl, rfl⟩, Nat.lt_of_not_le hlen, hf⟩
          · rintro ⟨hm | ⟨-, rfl⟩, -⟩
            · exact absurd hm (hnew d')
            · rfl
        · rw [if_neg ho, h.owns o' d']
          simp [ho]
    written_le := le_trans h.written_le (Nat.le_add_right _ _) }

theorem Holds.saveChunks {m : Nat} (hm : 0 < m) : ∀ {fuel : Nat} {d : Bytes} {s : QuicStreamSendBufferInlining},
    Holds A P s → d.length ≤ fuel →
    Holds A P (saveChunks m fuel s d) ∧ bytes (saveChunks m fuel s d).slices = bytes s.slices ++ d
  | 0, d, s, h, hf => by
    obtain rfl : d = [] := length_eq_zero_iff.1 (Nat.le_zero.1 hf)
    rw [append_nil]
    exact ⟨h, rfl⟩
  | fuel + 1, d, s, h, hf => by
    rw [QuicStreamSendBufferInlining.saveChunks]
    split
    next hd =>
      rw [hd, append_nil]
      exact ⟨h, rfl⟩
    next hd =>
    have hpos := length_pos_iff.2 hd
    obtain ⟨h1, hb1⟩ := h.saveMemSlice (d.take m)
    have hlen : (d.drop m).length ≤ fuel := by
      rw [length_drop]
      omega
    obtain ⟨h2, hb2⟩ := h1.saveChunks hm hlen
    refine ⟨h2, ?_⟩
    rw [hb2, hb1, append_assoc, take_append_drop]

theorem Holds.saveStreamData (h : Holds A P s) {m : Nat} (hm : 0 < m) (d : Bytes) :
    Holds A P (s.saveStreamData m d) ∧ bytes (s.saveStreamData m d).slices = bytes s.slices ++ d := by
  unfold QuicStreamSendBufferInlining.saveStreamData
  split
  · exact h.saveMemSlice d
  · exact h.saveChunks hm le_rfl

theorem Holds.saveMemSliceSpan (h : Holds A P s) (span : List Bytes) :
    Holds A P (s.saveMemSliceSpan span).2 ∧
      bytes (s.saveMemSliceSpan span).2.slices = bytes s.slices ++ span.flatten := by
  unfold QuicStreamSendBufferInlining.saveMemSliceSpan
  generalize 0 = n
  induction span generalizing s n with
  | nil =>
    rw [flatten_nil, append_nil]
    exact ⟨h, rfl⟩
  | cons d span ih =>
    rw [foldl_cons, flatten_cons]
    split
    next hd =>
      rw [hd, nil_append]
      exact ih h n
    · obtain ⟨h1, hb1⟩ := h.saveMemSlice d
      obtain ⟨h2, hb2⟩ := ih h1 (n + d.length)
      refine ⟨h2, ?_⟩
      rw [hb2, hb1, append_assoc]

theorem Holds.onStreamDataConsumed (h : Holds A P s) {n : Nat} (hn : s.streamBytesWritten + n ≤ s.streamOffset) :
    Holds A P (s.onStreamDataConsumed n) :=
  { h with
    written_le := hn
    acked_lt := fun p hp => lt_of_lt_of_le (h.acked_lt p hp) (Nat.le_add_right _ _)
    outstanding := by
      have := h.outstanding
      simp only [QuicStreamSendBufferInlining.onStreamDataConsumed]
      omega }

/-! ## Acknowledging -/

theorem Holds.finite (h : Holds A P s) : A.Finite := h.acked ▸ finite_points s.bytesAcked

theorem ncard_union (hA : A.Finite) (o n : Nat) :
    (A ∪ Set.Ico o (o + n)).ncard = A.ncard + (Set.Ico o (o + n) \ A).ncard := by
  rw [← Set.union_sdiff_self, Set.ncard_union_eq Set.disjoint_sdiff_right hA ((Set.finite_Ico _ _).sdiff)]

variable {n o : Nat}

theorem Holds.newly_le (h : Holds A P s) (hn : o + n ≤ s.streamBytesWritten) :
    (Set.Ico o (o + n) \ A).ncard ≤ s.streamBytesOutstanding := by
  have hsub : A ∪ Set.Ico o (o + n) ⊆ Set.Ico 0 s.streamBytesWritten := by
    rintro p (hp | hp)
    · exact ⟨Nat.zero_le p, h.acked_lt p hp⟩
    · exact ⟨Nat.zero_le p, lt_of_lt_of_le hp.2 hn⟩
  have hle := Set.ncard_le_ncard hsub (Set.finite_Ico _ _)
  rw [ncard_union h.finite, ncard_Ico] at hle
  have := h.outstanding
  omega

theorem Holds.acked_range (h : Holds A P s) {o n start stop : Nat} (hn : o + n ≤ s.streamBytesWritten)
    {acked : QuicIntervalSet Nat} (hc : acked.Canonical) (hp : points acked = A ∪ Set.Ico o (o + n))
    (hstart : start ∈ Set.Ico o (o + n) \ A) (hnew : ∀ p ∈ Set.Ico o (o + n) \ A, start ≤ p ∧ p < stop)
    (probes : List Nat) :
    ∃ s', { s with
        bytesAcked := acked
        streamBytesOutstanding := s.streamBytesOutstanding - (Set.Ico o (o + n) \ A).ncard
        pendingRetransmissions := s.pendingRetransmissions.differenceInterval ⟨o, o + n⟩ }.freeAndCleanUp start stop
          (Set.Ico o (o + n) \ A).ncard probes = (true, (Set.Ico o (o + n) \ A).ncard, s') ∧
      Holds (A ∪ Set.Ico o (o + n)) (P \ Set.Ico o (o + n)) s' ∧ s'.slices = s.slices ∧
      s'.streamBytesWritten = s.streamBytesWritten ∧ s'.streamOffset = s.streamOffset := by
  obtain ⟨hdc, hdp⟩ := differenceInterval_spec h.canonicalPending ⟨o, o + n⟩
  have hle := h.newly_le hn
  have hout := h.outstanding
  have hw := h.written_le
  have hfree : Freeing { s with
      bytesAcked := acked
      streamBytesOutstanding := s.streamBytesOutstanding - (Set.Ico o (o + n) \ A).ncard
      pendingRetransmissions := s.pendingRetransmissions.differenceInterval ⟨o, o + n⟩ } s.bytesAcked start stop :=
    { canonical := h.canonicalAcked
      canonical' := hc
      sub := by
        simp only [hp, h.acked]
        exact Set.subset_union_left
      new := by
        simp only [hp, h.acked]
        exact fun p hpu hpA => hnew p ⟨hpu.resolve_left hpA, hpA⟩
      start_new := h.acked ▸ hstart.2
      start_lt := by
        have := hstart.1.2
        rw [← h.streamOffset]
        omega
      contiguous := h.contiguous
      container := h.container
      valid := h.valid
      owns := h.owns }
  obtain ⟨d, owned, he, hd, hv, how⟩ := hfree.freeAndCleanUp (Set.Ico o (o + n) \ A).ncard probes
  refine ⟨_, he, ?_, rfl, rfl, rfl⟩
  exact {
    canonicalAcked := hc
    canonicalPending := hdc
    acked := hp
    pending := by
      simp only [hdp, h.pending]
    disjoint := by
      rintro p ⟨hpP, hpI⟩ (hpA | hpI')
      · exact h.disjoint p hpP hpA
      · exact hpI hpI'
    contiguous := h.contiguous
    streamOffset := h.streamOffset
    container := hd
    valid := hv
    owns := how
    written_le := h.written_le
    acked_lt := by
      rintro p (hpA | hpI)
      · exact h.acked_lt p hpA
      · exact lt_of_lt_of_le hpI.2 hn
    outstanding := by
      rw [ncard_union h.finite]
      simp only
      omega }

theorem Holds.not_acked_of_allNew (h : Holds A P s) {range : QuicInterval Nat} (ha : s.allNew range = true) :
    ∀ p ∈ A, p ∉ Set.Ico range.min range.max := by
  intro p hp
  rw [← h.acked] at hp
  rw [allNew, Bool.or_eq_true] at ha
  rcases ha with hl | hd
  · have hne : s.bytesAcked ≠ [] := by
      intro h0
      rw [h0, points_nil] at hp
      exact hp
    obtain ⟨last, hlast⟩ := ne_none_iff_exists'.1 (mt getLast?_eq_none_iff.1 hne)
    have hlt := lt_getLast_max h.canonicalAcked hlast hp
    rw [hlast, all_some, decide_eq_true_eq] at hl
    intro hpI
    have := hpI.1
    omega
  · exact (isDisjoint_iff h.canonicalAcked range).1 hd p hp

/-- The paths of `OnStreamDataAcked()`: nothing new, more new bytes than are outstanding, or as many as
the set of new bytes has, which lie between `start` and `stop`. -/
theorem Holds.onStreamDataAcked_cases (h : Holds A P s) (enabled : Bool) (hn : 0 < n) (probes : List Nat) :
    (Set.Ico o (o + n) ⊆ A ∧ s.onStreamDataAcked enabled o n probes = (true, 0, s)) ∨
    (s.streamBytesOutstanding < (Set.Ico o (o + n) \ A).ncard ∧
      ∃ k, s.onStreamDataAcked enabled o n probes = (false, k, s)) ∨
    (¬ Set.Ico o (o + n) ⊆ A ∧ (Set.Ico o (o + n) \ A).ncard ≤ s.streamBytesOutstanding ∧
      ∃ (acked : QuicIntervalSet Nat) (start stop : Nat), acked.Canonical ∧ points acked = A ∪ Set.Ico o (o + n) ∧
        start ∈ Set.Ico o (o + n) \ A ∧ (∀ p ∈ Set.Ico o (o + n) \ A, start ≤ p ∧ p < stop) ∧
        s.onStreamDataAcked enabled o n probes = { s with
          bytesAcked := acked
          streamBytesOutstanding := s.streamBytesOutstanding - (Set.Ico o (o + n) \ A).ncard
          pendingRetransmissions := s.pendingRetransmissions.differenceInterval ⟨o, o + n⟩ }.freeAndCleanUp start stop
            (Set.Ico o (o + n) \ A).ncard probes) := by
  unfold onStreamDataAcked
  dsimp only
  rw [if_neg (ne_of_gt hn)]
  have hlt : o < o + n := by omega
  have hadd : points (s.bytesAcked.add ⟨o, o + n⟩) =
    A ∪ Set.Ico o (o + n) := by rw [points_add h.canonicalAcked, h.acked]
  by_cases hall : s.allNew ⟨o, o + n⟩ = true
  · -- All of it is new.
    have hnot := h.not_acked_of_allNew hall
    have hself : Set.Ico o (o + n) \ A = Set.Ico o (o + n) :=
      sdiff_eq_left.2 (Set.disjoint_left.2 fun p hp hpA => hnot p hpA hp)
    have hcard : (Set.Ico o (o + n) \ A).ncard = n := by
      rw [hself, ncard_Ico, Nat.add_sub_cancel_left]
    have hmem : o ∈ Set.Ico o (o + n) \ A := hself.symm ▸ ⟨le_refl o, hlt⟩
    rw [if_pos hall, hcard]
    split
    next hle =>
      exact .inr (.inl ⟨hle, 0, rfl⟩)
    next hle =>
      rw [addOptimizedForAppend_eq h.canonicalAcked]
      refine .inr (.inr ⟨fun hsub => hmem.2 (hsub hmem.1), not_lt.1 hle, ?_⟩)
      exact ⟨_, o, o + n, canonical_add h.canonicalAcked _, hadd, hmem, fun p hp => hp.1, rfl⟩
  rw [if_neg hall]
  split
  next hcon =>
    exact .inl ⟨h.acked ▸ (containsInterval_iff h.canonicalAcked hlt).1 hcon, rfl⟩
  next hcon =>
  have hsub : ¬ Set.Ico o (o + n) ⊆ A := fun hsub =>
    hcon ((containsInterval_iff h.canonicalAcked hlt).2 (h.acked ▸ hsub))
  obtain ⟨hdc, hdp⟩ := difference_spec (canonical_add canonical_nil ⟨o, o + n⟩) h.canonicalAcked
  rw [points_add canonical_nil, points_nil, Set.empty_union, h.acked] at hdp
  have hcard : totalLength ((add [] ⟨o, o + n⟩).difference s.bytesAcked) = (Set.Ico o (o + n) \ A).ncard := by
    rw [totalLength, foldl_length hdc, hdp, zero_add]
  rw [hcard]
  split
  next hle =>
    exact .inr (.inl ⟨hle, _, rfl⟩)
  next hle =>
  -- Some of it is new, from the first to the last of the ranges that are.
  have hne : (add [] ⟨o, o + n⟩).difference s.bytesAcked ≠ [] := by
    intro h0
    rw [h0, points_nil] at hdp
    exact hsub (Set.sdiff_eq_empty.1 hdp.symm)
  generalize (add [] ⟨o, o + n⟩).difference s.bytesAcked = newly at hdc hdp hne ⊢
  obtain ⟨first, rest, rfl⟩ := exists_cons_of_ne_nil hne
  obtain ⟨last, hlast⟩ := ne_none_iff_exists'.1 (mt getLast?_eq_none_iff.1 hne)
  rw [head?_cons, hlast]
  refine .inr (.inr ⟨hsub, not_lt.1 hle, _, first.min, last.max, canonical_add h.canonicalAcked _, hadd,
    hdp ▸ min_mem_points hdc mem_cons_self, fun p hp => ?_, rfl⟩)
  rw [← hdp] at hp
  exact ⟨le_of_mem_points hdc hp, lt_getLast_max hdc hlast hp⟩

theorem Holds.onStreamDataAcked (h : Holds A P s) (enabled : Bool) {o n : Nat} (hn : o + n ≤ s.streamBytesWritten)
    (probes : List Nat) : ∃ s', s.onStreamDataAcked enabled o n probes = (true, (Set.Ico o (o + n) \ A).ncard, s') ∧
      Holds (A ∪ Set.Ico o (o + n)) (P \ Set.Ico o (o + n)) s' ∧ s'.slices = s.slices ∧
      s'.streamBytesWritten = s.streamBytesWritten ∧ s'.streamOffset = s.streamOffset := by
  rcases Nat.eq_zero_or_pos n with rfl | hpos
  · simp only [add_zero, Set.Ico_self, Set.empty_sdiff, Set.ncard_empty, Set.union_empty, Set.sdiff_empty]
    exact ⟨s, rfl, h, rfl, rfl, rfl⟩
  rcases h.onStreamDataAcked_cases enabled (o := o) hpos probes with ⟨hsub, he⟩ | ⟨hlt, -⟩ |
    ⟨-, -, acked, start, stop, hc, hp, hstart, hnew, he⟩
  · have hP : P \ Set.Ico o (o + n) = P :=
      sdiff_eq_left.2 (Set.disjoint_left.2 fun p hp hpI => h.disjoint p hp (hsub hpI))
    rw [he, Set.sdiff_eq_empty.2 hsub, Set.ncard_empty, Set.union_eq_self_of_subset_right hsub, hP]
    exact ⟨s, rfl, h, rfl, rfl, rfl⟩
  · exact absurd hlt (not_lt.2 (h.newly_le hn))
  · rw [he]
    exact h.acked_range hn hc hp hstart hnew probes

/-! ## Losing -/

theorem Holds.onStreamDataLost (h : Holds A P s) (o n : Nat) :
    Holds A (P ∪ (Set.Ico o (o + n) \ A)) (s.onStreamDataLost o n) := by
  unfold QuicStreamSendBufferInlining.onStreamDataLost
  by_cases hn : n = 0
  · subst hn
    rw [if_pos rfl, add_zero, Set.Ico_self, Set.empty_sdiff, Set.union_empty]
    exact h
  rw [if_neg hn]
  obtain ⟨hdc, hdp⟩ := difference_spec (canonical_add canonical_nil ⟨o, o + n⟩) h.canonicalAcked
  rw [points_add canonical_nil, points_nil, Set.empty_union, h.acked] at hdp
  obtain ⟨huc, hup⟩ := union_spec h.canonicalPending ((add [] ⟨o, o + n⟩).difference s.bytesAcked)
  rw [hdp, h.pending] at hup
  exact {
    h with
    canonicalPending := huc
    pending := hup
    disjoint := by
      rintro p (hp | hp)
      · exact h.disjoint p hp
      · exact hp.2 }

theorem Holds.onStreamDataRetransmitted (h : Holds A P s) (o n : Nat) :
    Holds A (P \ Set.Ico o (o + n)) (s.onStreamDataRetransmitted o n) := by
  unfold QuicStreamSendBufferInlining.onStreamDataRetransmitted
  by_cases hn : n = 0
  · subst hn
    rw [if_pos rfl, add_zero, Set.Ico_self, Set.sdiff_empty]
    exact h
  rw [if_neg hn]
  obtain ⟨hdc, hdp⟩ := differenceInterval_spec h.canonicalPending ⟨o, o + n⟩
  exact {
    h with
    canonicalPending := hdc
    pending := by
      simp only [hdp, h.pending]
    disjoint := fun p hp => h.disjoint p hp.1 }

/-! ## Writing -/

theorem Holds.writeStreamData (h : Holds A P s) (o n : Nat) (w : QuicheDataWriter) :
    Holds A P (s.writeStreamData o n w).2.2 := by
  have hv : (s.intervalDeque.dataAt interval o).2.Valid := h.valid.dataAt o
  have hc : (s.intervalDeque.dataAt interval o).2.container = s.intervalDeque.container :=
    s.intervalDeque.container_dataAt o
  unfold QuicStreamSendBufferInlining.writeStreamData
  dsimp only
  generalize s.intervalDeque.dataAt interval o = it at hv hc ⊢
  generalize writeSlices s.ownedSlices (it.2.container.drop it.1) o n w = r
  obtain ⟨h1, h2⟩ := foldl_increment (range' it.1 r.2.2) hv
  exact { h with container := h1.trans (hc.trans h.container), valid := h2 }

theorem Holds.writes (h : Holds A P s) {w : QuicheDataWriter} (hn : o + n ≤ (bytes s.slices).length)
    (hun : ∀ p ∈ Set.Ico o (o + n), p ∉ A) (hroom : n ≤ w.remaining) :
    (s.writeStreamData o n w).1 = true ∧
      w.writeBytes (((bytes s.slices).drop o).take n) = some (s.writeStreamData o n w).2.1 := by
  by_cases hn0 : n = 0
  · subst hn0
    simp only [QuicStreamSendBufferInlining.writeStreamData, writeSlices_zero, take_zero,
      QuicheDataWriter.writeBytes_nil, and_self]
  have hno : ∀ p, o ≤ p → p < o + n → p ∉ points s.bytesAcked := fun p h1 h2 => h.acked ▸ hun p ⟨h1, h2⟩
  obtain ⟨sl, hsl, hlo, hhi⟩ := h.contiguous.exists_mem (Nat.zero_le o) (by omega)
  have hf : full s.bytesAcked sl = false := by
    rw [Bool.eq_false_iff]
    intro hf
    exact hno o (le_refl o) (by omega) ((full_iff h.canonicalAcked (h.contiguous.bounds sl hsl).2.1).1 hf ⟨hlo, hhi⟩)
  obtain ⟨i, hi⟩ := mem_iff_getElem?.1 (mem_dropWhile_of_not hsl hf)
  -- `DataAt()` finds the slice.
  have hsuf := dropWhile_suffix (full s.bytesAcked) (l := s.slices)
  obtain ⟨b, hb, -⟩ := h.contiguous.suffix hsuf
  have hordered : QuicIntervalDeque.Ordered interval s.intervalDeque.container :=
    h.container ▸ ordered_entries hb
  have hcontains : s.intervalDeque.contains interval i o = true := by
    rw [QuicIntervalDeque.contains_iff]
    refine ⟨entry s.bytesAcked sl, by rw [h.container, getElem?_map, hi, map_some], hlo, ?_⟩
    rw [interval, size_entry hf]
    exact hhi
  have hat := QuicIntervalDeque.dataAt_of_contains h.valid hordered hcontains
  have hcont : (s.intervalDeque.dataAt interval o).2.container = s.intervalDeque.container :=
    s.intervalDeque.container_dataAt o
  -- The rest of the queue begins with it.
  obtain ⟨a, ha⟩ := (drop_suffix i (s.slices.dropWhile (full s.bytesAcked))).trans hsuf
  generalize hl : (s.slices.dropWhile (full s.bytesAcked)).drop i = l at ha
  have hhead : l.head? = some sl := by
    rw [← hl, head?_drop, hi]
  have hcon := h.contiguous
  rw [← ha] at hcon hn
  obtain ⟨-, hcl⟩ := contiguous_append.1 hcon
  have hbeg : 0 + (bytes a).length = sl.1 := by
    obtain ⟨rest, rfl⟩ := head?_eq_some_iff.1 hhead
    exact hcl.1.symm
  rw [hbeg] at hcl
  rw [zero_add] at hbeg
  have hbytes : bytes (a ++ l) = bytes a ++ bytes l := flatMap_append
  rw [hbytes, length_append] at hn
  obtain ⟨w', hw', hr1, hr2⟩ := @writeSlices_spec s.bytesAcked s.ownedSlices h.canonicalAcked s.slices h.owns l sl.1
    (fun x hx => ha ▸ mem_append_right a hx) hcl o n w hlo (by omega)
    (fun x hx _ => by
      rw [hhead] at hx
      cases hx
      exact hhi) hno hroom
  have hdrop : (bytes s.slices).drop o = (bytes l).drop (o - sl.1) := by
    rw [← ha, hbytes, drop_append, drop_eq_nil_of_le (by omega), nil_append, hbeg]
  unfold QuicStreamSendBufferInlining.writeStreamData
  dsimp only
  rw [hat, hcont, h.container, ← map_drop, hl, hdrop, hr1, hr2]
  exact ⟨rfl, hw'⟩

/-! ## Runs -/

inductive Ev
  | saveStreamData (data : Bytes)
  | saveMemSlice (slice : Bytes)
  | saveMemSliceSpan (span : List Bytes)
  | onStreamDataConsumed (bytesConsumed : Nat)
  | onStreamDataAcked (offset dataLength : Nat) (probes : List Nat)
  | onStreamDataLost (offset dataLength : Nat)
  | onStreamDataRetransmitted (offset dataLength : Nat)
  | writeStreamData (offset dataLength : Nat) (writer : QuicheDataWriter)

/-- Nothing is consumed beyond what was saved; what is acknowledged or lost has been consumed. -/
def step (enabled : Bool) (maxDataSliceSize : Nat) (s : QuicStreamSendBufferInlining) :
    Ev → Option QuicStreamSendBufferInlining
  | .saveStreamData data => some (s.saveStreamData maxDataSliceSize data)
  | .saveMemSlice slice => some (s.saveMemSlice slice)
  | .saveMemSliceSpan span => some (s.saveMemSliceSpan span).2
  | .onStreamDataConsumed n =>
    if s.streamBytesWritten + n ≤ s.streamOffset then some (s.onStreamDataConsumed n) else none
  | .onStreamDataAcked o n probes =>
    if o + n ≤ s.streamBytesWritten then some (s.onStreamDataAcked enabled o n probes).2.2 else none
  | .onStreamDataLost o n => if o + n ≤ s.streamBytesWritten then some (s.onStreamDataLost o n) else none
  | .onStreamDataRetransmitted o n => some (s.onStreamDataRetransmitted o n)
  | .writeStreamData o n w => some (s.writeStreamData o n w).2.2

namespace Ev

def saved : Ev → Bytes
  | saveStreamData data => data
  | saveMemSlice slice => slice
  | saveMemSliceSpan span => span.flatten
  | _ => []

def acks : Ev → Set Nat
  | onStreamDataAcked o n _ => Set.Ico o (o + n)
  | _ => ∅

def losses : Ev → Set Nat
  | onStreamDataLost o n => Set.Ico o (o + n)
  | _ => ∅

def retransmits : Ev → Set Nat
  | onStreamDataRetransmitted o n => Set.Ico o (o + n)
  | _ => ∅

end Ev

def savedBy (es : List Ev) : Bytes := es.flatMap Ev.saved

def ackedBy (es : List Ev) : Set Nat := {p | ∃ e ∈ es, p ∈ e.acks}

def lostSince (es : List Ev) : Set Nat :=
  {p | ∃ before e after, es = before ++ e :: after ∧ p ∈ e.losses ∧ ∀ f ∈ after, p ∉ f.retransmits}

theorem ackedBy_append (es : List Ev) (e : Ev) : ackedBy (es ++ [e]) = ackedBy es ∪ e.acks := by
  ext p
  simp [ackedBy, or_and_right, exists_or]

theorem lostSince_append (es : List Ev) (e : Ev) :
    lostSince (es ++ [e]) = (lostSince es \ e.retransmits) ∪ e.losses := by
  ext p
  constructor
  · rintro ⟨before, f, after, he, hf, ha⟩
    rcases eq_nil_or_concat' after with rfl | ⟨after, g, rfl⟩
    · obtain ⟨-, ⟨⟩⟩ := append_inj' he rfl
      exact .inr hf
    · rw [← cons_append, ← append_assoc] at he
      obtain ⟨rfl, ⟨⟩⟩ := append_inj' he rfl
      exact .inl ⟨⟨before, f, after, rfl, hf, fun k hk => ha k (mem_append_left _ hk)⟩,
        ha e (mem_append_right _ (mem_singleton.2 rfl))⟩
  · rintro (⟨⟨before, f, after, rfl, hf, ha⟩, hr⟩ | hl)
    · refine ⟨before, f, after ++ [e], by simp, hf, fun k hk => ?_⟩
      rcases mem_append.1 hk with hk | hk
      · exact ha k hk
      · rw [mem_singleton.1 hk]
        exact hr
    · exact ⟨es, e, [], rfl, hl, nofun⟩

structure After (es : List Ev) (s : QuicStreamSendBufferInlining) : Prop where
  holds : Holds (ackedBy es) (lostSince es \ ackedBy es) s
  saved : bytes s.slices = savedBy es

variable {es : List Ev} {e : Ev}

theorem After.next {s s' : QuicStreamSendBufferInlining} {A' P' : Set Nat} (h : After es s)
    (hh : Holds A' P' s') (hA : A' = ackedBy es ∪ e.acks)
    (hP : P' = (lostSince es \ e.retransmits ∪ e.losses) \ (ackedBy es ∪ e.acks))
    (hb : bytes s'.slices = bytes s.slices ++ e.saved) : After (es ++ [e]) s' where
  holds := by
    subst hA hP
    rw [ackedBy_append, lostSince_append]
    exact hh
  saved := by
    rw [hb, h.saved]
    simp [savedBy]

theorem After.keep {s s' : QuicStreamSendBufferInlining} (h : After es s)
    (hh : Holds (ackedBy es) (lostSince es \ ackedBy es) s') (ha : e.acks = ∅) (hl : e.losses = ∅)
    (hr : e.retransmits = ∅) (hb : bytes s'.slices = bytes s.slices ++ e.saved) : After (es ++ [e]) s' :=
  h.next hh (by rw [ha, Set.union_empty]) (by rw [ha, hl, hr, Set.union_empty, Set.union_empty, Set.sdiff_empty]) hb

variable {enabled : Bool} {m : Nat}

theorem After.step (hm : 0 < m) {s s' : QuicStreamSendBufferInlining}
    (h : After es s) (hs : step enabled m s e = some s') : After (es ++ [e]) s' := by
  cases e with
  | saveStreamData data =>
    cases hs
    obtain ⟨h1, h2⟩ := h.holds.saveStreamData hm data
    exact h.keep h1 rfl rfl rfl h2
  | saveMemSlice slice =>
    cases hs
    obtain ⟨h1, h2⟩ := h.holds.saveMemSlice slice
    exact h.keep h1 rfl rfl rfl h2
  | saveMemSliceSpan span =>
    cases hs
    obtain ⟨h1, h2⟩ := h.holds.saveMemSliceSpan span
    exact h.keep h1 rfl rfl rfl h2
  | onStreamDataConsumed n =>
    obtain ⟨hg, ⟨⟩⟩ := ite_none_right_eq_some.1 hs
    exact h.keep (h.holds.onStreamDataConsumed hg) rfl rfl rfl (append_nil _).symm
  | onStreamDataAcked o n probes =>
    obtain ⟨hg, he⟩ := ite_none_right_eq_some.1 hs
    obtain ⟨t, ht, hh, hsl, -⟩ := h.holds.onStreamDataAcked enabled hg probes
    rw [ht] at he
    cases he
    apply h.next hh rfl
    · simp only [Ev.acks, Ev.losses, Ev.retransmits, Set.sdiff_empty, Set.union_empty, Set.sdiff_sdiff]
    · rw [hsl]
      exact (append_nil _).symm
  | onStreamDataLost o n =>
    obtain ⟨hg, ⟨⟩⟩ := ite_none_right_eq_some.1 hs
    have hsl : (s.onStreamDataLost o n).slices = s.slices := by
      unfold onStreamDataLost
      split <;> rfl
    apply h.next (h.holds.onStreamDataLost o n)
    · exact (Set.union_empty _).symm
    · simp only [Ev.acks, Ev.losses, Ev.retransmits, Set.sdiff_empty, Set.union_empty, Set.union_sdiff_distrib]
    · rw [hsl]
      exact (append_nil _).symm
  | onStreamDataRetransmitted o n =>
    cases hs
    have hsl : (s.onStreamDataRetransmitted o n).slices = s.slices := by
      unfold onStreamDataRetransmitted
      split <;> rfl
    apply h.next (h.holds.onStreamDataRetransmitted o n)
    · exact (Set.union_empty _).symm
    · simp only [Ev.acks, Ev.losses, Ev.retransmits, Set.union_empty]
      exact Set.sdiff_sdiff_comm
    · rw [hsl]
      exact (append_nil _).symm
  | writeStreamData o n w =>
    cases hs
    exact h.keep (h.holds.writeStreamData o n w) rfl rfl rfl (append_nil _).symm

theorem after_run (hm : 0 < m) {s : QuicStreamSendBufferInlining}
    (hr : Lts.run (step enabled m) {} es = some s) : After es s := by
  have h0 : After [] {} := by
    refine ⟨?_, rfl⟩
    have ha : ackedBy [] = ∅ := by simp [ackedBy]
    have hl : lostSince [] = ∅ := by simp [lostSince]
    rw [ha, hl, Set.sdiff_empty]
    exact holds_fresh
  exact Lts.run_hist (fun es s e s' h hs => h.step hm hs) h0 hr

def Gone (s : QuicStreamSendBufferInlining) (sl : Nat × Bytes) : Prop :=
  (∀ t ∈ s.intervalDeque.container, t.offset = sl.1 → t.slice.size = 0) ∧ s.ownedSlices.lookup sl.1 = none

def Kept (s : QuicStreamSendBufferInlining) (sl : Nat × Bytes) : Prop :=
  ∃ t ∈ s.intervalDeque.container, t.offset = sl.1 ∧ t.slice.size = sl.2.length ∧ t.data s.ownedSlices = sl.2

variable {sl : Nat × Bytes}

theorem Holds.gone (h : Holds A P s) (hm : sl ∈ s.slices) (ha : Set.Ico sl.1 (sl.1 + sl.2.length) ⊆ A) : s.Gone sl := by
  have hf : full s.bytesAcked sl = true := (full_iff h.canonicalAcked (h.contiguous.bounds sl hm).2.1).2 (h.acked ▸ ha)
  constructor
  · intro t ht hoff
    rw [h.container] at ht
    obtain ⟨x, hx, rfl⟩ := mem_map.1 ht
    rw [h.contiguous.eq_of_fst ((dropWhile_suffix _).mem hx) hm hoff]
    exact size_entry_of_full hf
  · rw [eq_none_iff_forall_ne_some]
    intro d hd
    obtain ⟨hm', -, hf'⟩ := (h.owns _ d).1 hd
    rw [← h.contiguous.eq_of_fst hm hm' rfl] at hf'
    cases hf.symm.trans hf'

theorem Holds.kept (h : Holds A P s) (hm : sl ∈ s.slices) (ha : ¬ Set.Ico sl.1 (sl.1 + sl.2.length) ⊆ A) :
    s.Kept sl := by
  have hf : full s.bytesAcked sl = false := by
    rw [Bool.eq_false_iff]
    exact fun hf => ha (h.acked ▸ (full_iff h.canonicalAcked (h.contiguous.bounds sl hm).2.1).1 hf)
  refine ⟨entry s.bytesAcked sl, ?_, rfl, size_entry hf, data_entry h.owns hm hf⟩
  rw [h.container]
  exact mem_map.2 ⟨sl, mem_dropWhile_of_not hm hf, rfl⟩

/-- **The send buffer** holds, after any run, what is not acknowledged, and asks to send again what was lost and not
acknowledged or sent since. -/
theorem sendBuffer_contract (enabled : Bool) {m : Nat} (hm : 0 < m) {es : List Ev} {s : QuicStreamSendBufferInlining}
    (hr : Lts.run (step enabled m) {} es = some s) :
    (∀ o n w, o + n ≤ (savedBy es).length → (∀ p ∈ Set.Ico o (o + n), p ∉ ackedBy es) → n ≤ w.remaining →
      (s.writeStreamData o n w).1 = true ∧
        (s.writeStreamData o n w).2.1.buffer = w.buffer ++ ((savedBy es).drop o).take n) ∧
    (s.streamBytesOutstanding + (ackedBy es).ncard = s.streamBytesWritten ∧
      ∀ o n probes, o + n ≤ s.streamBytesWritten →
        (s.onStreamDataAcked enabled o n probes).2.1 = (Set.Ico o (o + n) \ ackedBy es).ncard) ∧
    (points s.bytesAcked = ackedBy es ∧ points s.pendingRetransmissions = lostSince es \ ackedBy es) ∧
    (∀ o n probes, o + n ≤ s.streamBytesWritten → (s.onStreamDataAcked enabled o n probes).1 = true) ∧
    bytes s.slices = savedBy es ∧
    ∀ sl ∈ s.slices, (Set.Ico sl.1 (sl.1 + sl.2.length) ⊆ ackedBy es → s.Gone sl) ∧
      (¬ Set.Ico sl.1 (sl.1 + sl.2.length) ⊆ ackedBy es → s.Kept sl) := by
  obtain ⟨h, hsaved⟩ := after_run hm hr
  have hacked : ∀ o n probes, o + n ≤ s.streamBytesWritten → ∃ t,
      s.onStreamDataAcked enabled o n probes = (true, (Set.Ico o (o + n) \ ackedBy es).ncard, t) := by
    intro o n probes hn
    obtain ⟨t, ht, -⟩ := h.onStreamDataAcked enabled hn probes
    exact ⟨t, ht⟩
  refine ⟨?_, ⟨h.outstanding, ?_⟩, ⟨h.acked, h.pending⟩, ?_, hsaved, fun sl hsl => ⟨h.gone hsl, h.kept hsl⟩⟩
  · intro o n w hn hun hroom
    obtain ⟨h1, h2⟩ := h.writes (hsaved ▸ hn) hun hroom
    rw [hsaved] at h2
    exact ⟨h1, (QuicheDataWriter.writeBytes_eq_some.1 h2).2.2⟩
  · intro o n probes hn
    obtain ⟨t, ht⟩ := hacked o n probes hn
    rw [ht]
  · intro o n probes hn
    obtain ⟨t, ht⟩ := hacked o n probes hn
    rw [ht]

def outOfOrder : List Ev :=
  [.saveStreamData (replicate 16 1 ++ [2, 3]), .onStreamDataConsumed 18, .onStreamDataLost 0 18,
    .onStreamDataAcked 15 3 [0, 1]]

theorem sendBuffer_contract_outOfOrder :
    ∃ s, Lts.run (step true 16) {} outOfOrder = some s ∧ s.pendingRetransmissions = [⟨0, 15⟩] ∧
      s.streamBytesOutstanding = 15 ∧ s.intervalDeque.container = [⟨.pointer 16, 0⟩, ⟨.cleared, 16⟩] ∧
      (s.writeStreamData 3 12 (QuicheDataWriter.fresh 12)).2.1.buffer = List.replicate 12 1 := by
  have hr : Lts.run (step true 16) {} outOfOrder = some _ := rfl
  refine ⟨_, hr, rfl, rfl, rfl, ?_⟩
  have hw := ((sendBuffer_contract true (by decide) hr).1 3 12 (QuicheDataWriter.fresh 12) (by decide) (by
    rintro p ⟨h1, h2⟩ ⟨e, he, hp⟩
    simp only [outOfOrder, mem_cons, not_mem_nil, or_false] at he
    rcases he with rfl | rfl | rfl | rfl
    · exact hp
    · exact hp
    · exact hp
    · have := hp.1
      omega) (by decide)).2
  exact hw

end QuicStreamSendBufferInlining

end Quictun
