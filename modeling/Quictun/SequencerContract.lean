import Quictun.Sequencer
import Quictun.SequencerBufferContract

/-!
# The end of a stream

All frames are cut from one stream `S` of `L` bytes. The sequencer is closed when it has seen the FIN
and everything has been consumed. Whatever becomes readable is announced, or dropped once the stream
has stopped reading; dropping skips what is missing, which is not counted when it arrives later.
-/

namespace Quictun

open QuicIntervalSet Option List Set

/-! ## What a frame does to the buffer -/

namespace QuicStreamSequencerBuffer

variable {C : Nat} {S : Nat → UInt8} {rcv : Set Nat} {s s' : QuicStreamSequencerBuffer}

variable {m : Nat}

theorem firstMissingByte_eq (hc : s.bytesReceived.Canonical) (h : points s.bytesReceived = Set.Iio m) :
    s.firstMissingByte = m := by
  obtain ⟨h1, h2⟩ := firstMissingByte_spec hc
  rw [h] at h1 h2
  rcases Nat.lt_trichotomy s.firstMissingByte m with hlt | heq | hgt
  · exact absurd hlt h2
  · exact heq
  · exact absurd (h1 m hgt) (lt_irrefl m)

theorem nextExpectedByte_eq (hc : s.bytesReceived.Canonical) (h1 : ∀ p ∈ points s.bytesReceived, p < m)
    (h2 : 0 < m → m - 1 ∈ points s.bytesReceived) : s.nextExpectedByte = m := by
  rcases Nat.lt_trichotomy s.nextExpectedByte m with hlt | heq | hgt
  · have := lt_nextExpectedByte hc (h2 (by omega))
    omega
  · exact heq
  · have := h1 _ (nextExpectedByte_mem hc (by omega))
    omega

section
variable {b : QuicStreamSequencerBuffer} {o n : Nat}

theorem Holds.nextExpectedByte_union (h : Holds C S rcv s) (hb : Holds C S (rcv ∪ Set.Ico o (o + n)) b) (hn : 0 < n) :
    b.nextExpectedByte = max s.nextExpectedByte (o + n) := by
  apply nextExpectedByte_eq hb.canonical
  · rw [hb.received]
    rintro p (hp | hp)
    · rw [← h.received] at hp
      exact lt_max_of_lt_left (lt_nextExpectedByte h.canonical hp)
    · exact lt_max_of_lt_right hp.2
  · intro _
    rw [hb.received]
    rcases Nat.le_total s.nextExpectedByte (o + n) with hle | hle
    · right
      rw [max_eq_right hle]
      exact ⟨by omega, by omega⟩
    · left
      rw [max_eq_left hle, ← h.received]
      exact nextExpectedByte_mem h.canonical (by omega)

theorem Holds.readableBytes_duplicate (h : Holds C S rcv s) (hb : Holds C S (rcv ∪ Set.Ico o (o + n)) b)
    (hR : b.totalBytesRead = s.totalBytesRead) (h0 : (Set.Ico o (o + n) \ rcv).ncard = 0) :
    b.readableBytes = s.readableBytes := by
  have hsub : Set.Ico o (o + n) ⊆ rcv :=
    sdiff_eq_empty.1 ((ncard_eq_zero ((finite_Ico o (o + n)).subset sdiff_subset)).1 h0)
  have hsame : b.bytesReceived = s.bytesReceived := by
    apply hb.canonical.ext h.canonical
    rw [hb.received, h.received, union_eq_self_of_subset_right hsub]
  exact readableBytes_of_eq (n := 0) hR hsame

end

/-! ## An emptied buffer -/

structure Flat (C : Nat) (S : Nat → UInt8) (s : QuicStreamSequencerBuffer) : Prop where
  holds : Holds C S (Set.Iio s.totalBytesRead) s
  nextExpectedByte : s.nextExpectedByte = s.totalBytesRead
  readableBytes : s.readableBytes = 0
  numBytesBuffered : s.numBytesBuffered = 0

section
variable (h : Holds C S rcv s)
include h

theorem flat_of_eq (hC : s'.maxBufferCapacityBytes = s.maxBufferCapacityBytes)
    (hl : s'.blocks.length ≤ s.blocks.length) (hb : s'.bytesReceived = QuicIntervalSet.add [] ⟨0, s'.totalBytesRead⟩)
    (hn : s'.numBytesBuffered = 0) (hr : s'.retired = s.retired) (hbugs : s'.bugs = s.bugs) : Flat C S s' := by
  have hpoints : points s'.bytesReceived = Set.Iio s'.totalBytesRead := by
    rw [hb, points_add canonical_nil, points_nil, empty_union]
    ext p
    simp
  have hcan : s'.bytesReceived.Canonical := hb ▸ canonical_add canonical_nil _
  have hunread : {p | p ∈ Set.Iio s'.totalBytesRead ∧ s'.totalBytesRead ≤ p} = ∅ := by
    ext p
    simp
  refine ⟨?_, ?_, ?_, hn⟩
  · exact {
      capacity := hC.trans h.capacity
      length_le := by
        have := h.length_le
        unfold maxBlocksCount at this ⊢
        rw [hC]
        omega
      canonical := hcan
      received := hpoints
      consumed := fun p hp => hp
      window := fun p hp => lt_of_lt_of_le hp (Nat.le_add_right _ _)
      buffered := by rw [hn, hunread, ncard_empty]
      stored := fun p hp hR => absurd hp (not_lt.2 hR)
      retired := by
        rw [hr]
        intro r hr p hp hR
        have := h.retired r hr p hp hR
        unfold getBlockIndex at this ⊢
        rw [hC]
        exact this
      bugs := hbugs.trans h.bugs }
  · apply nextExpectedByte_eq hcan
    · rw [hpoints]
      exact fun p hp => hp
    · intro hpos
      rw [hpoints]
      exact Nat.sub_lt hpos Nat.one_pos
  · rw [QuicStreamSequencerBuffer.readableBytes, firstMissingByte_eq hcan hpoints, Nat.sub_self]

theorem Holds.clear : Flat C S s.clear :=
  flat_of_eq h rfl (le_of_eq (length_map _)) rfl rfl rfl rfl

theorem Holds.releaseWholeBuffer : Flat C S s.releaseWholeBuffer :=
  flat_of_eq h rfl (Nat.zero_le _) rfl rfl rfl rfl

theorem Holds.flushBufferedFrames : Flat C S s.flushBufferedFrames.2 :=
  flat_of_eq h rfl (le_of_eq (length_map _)) rfl rfl rfl rfl

theorem Holds.le_nextExpectedByte : s.totalBytesRead ≤ s.nextExpectedByte := by
  rcases Nat.eq_zero_or_pos s.totalBytesRead with h0 | hpos
  · omega
  · have := lt_nextExpectedByte h.canonical (h.received ▸ h.consumed (s.totalBytesRead - 1) (by omega))
    omega

theorem Holds.onStreamData_old (enabled : Bool) {o n : Nat} (hn : 0 < n) (hsub : Set.Ico o (o + n) ⊆ rcv) :
    (s.onStreamData enabled o (piece S o n)).2 = s ∧
      ((∃ e, (s.onStreamData enabled o (piece S o n)).1 = .error e) ∨
        (s.onStreamData enabled o (piece S o n)).1 = .ok 0) := by
  have ho : o ∈ points s.bytesReceived := h.received ▸ hsub ⟨le_rfl, by omega⟩
  unfold QuicStreamSequencerBuffer.onStreamData
  dsimp only
  rw [length_piece]
  split
  · exact ⟨rfl, .inl ⟨_, rfl⟩⟩
  split
  · exact ⟨rfl, .inl ⟨_, rfl⟩⟩
  split
  next hnew =>
    exfalso
    rcases Bool.or_eq_true_iff.1 hnew with hlast | hd
    · have hlt := lt_nextExpectedByte h.canonical ho
      unfold nextExpectedByte at hlt
      cases hl : s.bytesReceived.getLast? with
      | none =>
        rw [hl] at hlt
        exact absurd hlt (Nat.not_lt_zero o)
      | some last =>
        rw [hl] at hlt hlast
        simp only [all_some, decide_eq_true_eq, map_some, getD_some] at hlt hlast
        omega
    · exact (isDisjoint_iff h.canonical ⟨o, o + n⟩).1 hd o ho ⟨le_rfl, show o < o + n by omega⟩
  · obtain ⟨hdc, hdp⟩ := difference_spec (canonical_add canonical_nil ⟨o, o + n⟩) h.canonical
    rw [points_add canonical_nil, points_nil, empty_union, h.received, sdiff_eq_empty.2 hsub] at hdp
    rw [if_pos (hdc.ext canonical_nil (hdp.trans points_nil.symm))]
    exact ⟨rfl, .inr rfl⟩

end

end QuicStreamSequencerBuffer

open QuicStreamSequencerBuffer

namespace Sequencer

open QuicStreamSequencerBuffer (Holds Flat)

theorem enough_blocks : kInitialBlockCount ≤ calculateBlockCount kStreamReceiveWindowLimit := by decide

/-- All frames are of the stream `S` of `L` bytes, with the FIN on frames that end with it. A buffer is
only released after the end of the stream. -/
def step (enabled : Bool) (S : Nat → UInt8) (L : Nat) (s : Sequencer) (e : Ev) : Option Sequencer :=
  if s.error = none then
    match e with
    | .onStreamFrame o data fin =>
      if s.stack = [] ∧ data = piece S o data.length ∧ o + data.length ≤ L ∧ (fin = true → o + data.length = L) then
        some (s.onStreamFrame enabled o data fin)
      else none
    | .readv dests => some (s.readv dests).2
    | .markConsumed n => some (s.markConsumed n)
    | .stopReading => some s.stopReading
    | .releaseBuffer => if s.isClosed then some s.releaseBuffer else none
    | .callReturns => some (s.callReturns enabled)
  else none

def bytesReported : List StreamCall → Nat
  | [] => 0
  | .addBytesConsumed n :: calls => bytesReported calls + n
  | .onDataAvailable :: calls => bytesReported calls
  | .onFinRead :: calls => bytesReported calls

def Ev.dataEnd : Ev → Nat
  | .onStreamFrame o data _ => if data = [] then 0 else o + data.length
  | .readv _ | .markConsumed _ | .stopReading | .releaseBuffer | .callReturns => 0

def Ev.isFin : Ev → Bool
  | .onStreamFrame _ _ fin => fin
  | .readv _ | .markConsumed _ | .stopReading | .releaseBuffer | .callReturns => false

def highestReceived (es : List Ev) : Nat := es.foldl (fun n e => max n e.dataEnd) 0

def finReceived (es : List Ev) : Bool := es.any Ev.isFin

section
variable {S : Nat → UInt8} {L high : Nat} {fin : Bool} {s t : Sequencer} {enabled : Bool}

def Consistent (S : Nat → UInt8) (L : Nat) (rest : Option (Nat × Bytes)) : Prop :=
  ∀ o data, rest = some (o, data) → data ≠ [] ∧ data = piece S o data.length ∧ o + data.length ≤ L

/-- `high` is the highest offset received, and `fin` whether there was a FIN. -/
structure Base (S : Nat → UInt8) (L high : Nat) (fin : Bool) (s : Sequencer) : Prop where
  levelTriggered : s.levelTriggered = true
  blocked : s.blocked = false
  holds : ∃ rcv, Holds kStreamReceiveWindowLimit S rcv s.bufferedFrames
  highestOffset : s.highestOffset = high
  nextExpectedByte : s.bufferedFrames.nextExpectedByte = high
  high_le : high ≤ L
  closeOffset : s.closeOffset = if fin then some L else none
  reported : bytesReported s.calls = s.numBytesConsumed
  closing : s.stack ≠ [] → s.isClosed = true
  rests : ∀ rest ∈ s.stack, Consistent S L rest

/-- Between two calls nothing is readable once the stream has stopped reading. -/
structure Inv (S : Nat → UInt8) (L high : Nat) (fin : Bool) (s : Sequencer) : Prop extends Base S L high fin s where
  ignored : s.ignoreReadData = true → s.readableBytes = 0

theorem inv_init (S : Nat → UInt8) (L : Nat) : Inv S L 0 false { levelTriggered := true } where
  levelTriggered := rfl
  blocked := rfl
  holds := ⟨∅, QuicStreamSequencerBuffer.holds_fresh _ S⟩
  highestOffset := rfl
  nextExpectedByte := rfl
  high_le := Nat.zero_le L
  closeOffset := rfl
  ignored h := by cases h
  reported := rfl
  closing h := absurd rfl h
  rests := nofun

theorem Base.consumed_le (h : Base S L high fin s) : s.numBytesConsumed ≤ high := by
  obtain ⟨rcv, hh⟩ := h.holds
  exact h.nextExpectedByte ▸ hh.le_nextExpectedByte

theorem Base.isClosed_iff (h : Base S L high fin s) : s.isClosed = true ↔ fin = true ∧ s.numBytesConsumed = L := by
  have h1 := h.consumed_le
  have h2 := h.high_le
  rw [isClosed, h.closeOffset]
  cases fin with
  | false => simp
  | true =>
    simp only [if_true, any_some, decide_eq_true_eq, true_and]
    omega

theorem Base.high_of_closed (h : Base S L high fin s) (hc : s.isClosed = true) : high = L := by
  have h1 := h.consumed_le
  have h2 := h.high_le
  have h3 := (h.isClosed_iff.1 hc).2
  omega

theorem isClosed_mono (hc : s.isClosed = true) (ho : t.closeOffset = s.closeOffset)
    (hle : s.numBytesConsumed ≤ t.numBytesConsumed) :
    t.isClosed = true := by
  unfold isClosed at hc ⊢
  rw [ho]
  cases hs : s.closeOffset with
  | none =>
    rw [hs] at hc
    exact hc
  | some n =>
    rw [hs] at hc
    simp only [any_some, decide_eq_true_eq] at hc ⊢
    omega

/-! ## Closing -/

def endCall (s : Sequencer) : StreamCall := if s.ignoreReadData then .onFinRead else .onDataAvailable

theorem bytesReported_endCall (s : Sequencer) (calls : List StreamCall) :
    bytesReported (s.endCall :: calls) = bytesReported calls := by
  unfold endCall
  split <;> rfl

theorem Inv.passUpTermination (h : Inv S L high fin s) (hc : s.isClosed = true) {rest : Option (Nat × Bytes)}
    (hrest : Consistent S L rest) : Inv S L high fin (s.passUpTermination rest) :=
  { h with
    reported := (bytesReported_endCall s s.calls).trans h.reported
    closing := fun _ => hc
    rests := forall_mem_cons.2 ⟨hrest, h.rests⟩ }

theorem maybeCloseStream_of_closed (hb : s.blocked = false) (hc : s.isClosed = true) :
    s.maybeCloseStream = s.passUpTermination none := by
  rw [maybeCloseStream, hb, hc]
  rfl

theorem maybeCloseStream_of_open (hc : s.isClosed = false) : s.maybeCloseStream = s := by
  rw [maybeCloseStream, hc, Bool.not_false, Bool.or_true, if_pos rfl]

theorem maybeCloseStream_eq (hb : s.blocked = false) : ∃ stack, s.maybeCloseStream =
    { s with calls := if s.isClosed then s.endCall :: s.calls else s.calls, stack := stack } := by
  cases hc : s.isClosed with
  | true => exact ⟨_, maybeCloseStream_of_closed hb hc⟩
  | false => exact ⟨_, maybeCloseStream_of_open hc⟩

theorem Inv.maybeCloseStream (h : Inv S L high fin s) : Inv S L high fin s.maybeCloseStream := by
  cases hc : s.isClosed with
  | true =>
    rw [maybeCloseStream_of_closed h.blocked hc]
    exact h.passUpTermination hc nofun
  | false =>
    rw [maybeCloseStream_of_open hc]
    exact h

structure Flushed (high : Nat) (s t : Sequencer) : Prop where
  numBytesConsumed : t.numBytesConsumed = high
  readableBytes : t.readableBytes = 0
  numBytesBuffered : t.bufferedFrames.numBytesBuffered = 0
  error : t.error = s.error
  ignoreReadData : t.ignoreReadData = s.ignoreReadData
  calls : t.calls = if t.isClosed then .onFinRead :: .addBytesConsumed (high - s.numBytesConsumed) :: s.calls
    else .addBytesConsumed (high - s.numBytesConsumed) :: s.calls

theorem Base.flushBufferedFrames (h : Base S L high fin s) (hi : s.ignoreReadData = true) :
    Inv S L high fin s.flushBufferedFrames ∧ Flushed high s s.flushBufferedFrames := by
  obtain ⟨rcv, hh⟩ := h.holds
  have hflat := hh.flushBufferedFrames
  have hle := h.consumed_le
  have htotal : s.bufferedFrames.flushBufferedFrames.2.totalBytesRead = high := h.nextExpectedByte
  have hbytes : s.bufferedFrames.flushBufferedFrames.1 = high - s.numBytesConsumed :=
    congrArg (· - s.bufferedFrames.totalBytesRead) h.nextExpectedByte
  unfold Sequencer.flushBufferedFrames
  dsimp only
  rw [hbytes]
  generalize ht : ({ s with bufferedFrames := s.bufferedFrames.flushBufferedFrames.2 } : Sequencer).call
    (.addBytesConsumed (high - s.numBytesConsumed)) = t
  have htc : t.numBytesConsumed = high := by
    subst ht
    exact htotal
  have hinv : Inv S L high fin t := by
    subst ht
    exact {
      h with
      holds := ⟨_, hflat.holds⟩
      nextExpectedByte := hflat.nextExpectedByte.trans htotal
      ignored := fun _ => hflat.readableBytes
      reported := by
        change bytesReported s.calls + (high - s.numBytesConsumed) =
          s.bufferedFrames.flushBufferedFrames.2.totalBytesRead
        rw [h.reported, htotal]
        omega
      closing := fun hs => isClosed_mono (h.closing hs) rfl (htc.symm ▸ hle) }
  refine ⟨hinv.maybeCloseStream, ?_⟩
  obtain ⟨stack, he⟩ := maybeCloseStream_eq hinv.blocked
  rw [he]
  subst ht
  exact {
    numBytesConsumed := htc
    readableBytes := hflat.readableBytes
    numBytesBuffered := hflat.numBytesBuffered
    error := rfl
    ignoreReadData := rfl
    calls := by
      simp only [endCall, call, hi, if_true]
      rfl }

/-! ## Frames -/

def buffered (enabled : Bool) (s : Sequencer) (byteOffset : Nat) (data : Bytes) : Sequencer :=
  { s with
    highestOffset := max s.highestOffset (byteOffset + data.length)
    bufferedFrames := (s.bufferedFrames.onStreamData enabled byteOffset data).2 }

def Harmless (e : SequencerError) : Prop := e = .invalidMarkConsumed ∨ ∃ b, e = .buffer b ∧ b.invalidState = false

variable {n o : Nat}

theorem Inv.onFrameData_cases (h : Inv S L high fin s) (enabled : Bool) (hn : 0 < n) (hL : o + n ≤ L) :
    (∃ e, (s.onFrameData enabled o (piece S o n)).error = some e ∧ Harmless e) ∨
    Base S L (max high (o + n)) fin (s.buffered enabled o (piece S o n)) ∧
      (s.buffered enabled o (piece S o n)).numBytesConsumed = s.numBytesConsumed ∧
      s.onFrameData enabled o (piece S o n) =
        if s.readableBytes <
          (s.buffered enabled o (piece S o n)).readableBytes then (s.buffered enabled o (piece S o n)).notify
        else s.buffered enabled o (piece S o n) := by
  obtain ⟨rcv, hh⟩ := h.holds
  unfold onFrameData
  dsimp only
  rw [length_piece]
  rcases hh.onStreamData enough_blocks enabled o n with ⟨e, he, hi⟩ | ⟨b, hb, hhb, hbR⟩
  · rw [he]
    exact .inl ⟨_, rfl, .inr ⟨e, rfl, hi⟩⟩
  right
  have ht : s.buffered enabled o (piece S o n) =
    { s with highestOffset := max s.highestOffset (o + n), bufferedFrames := b } := by
    rw [buffered, hb, length_piece]
  rw [ht, hb]
  have hnext : b.nextExpectedByte = max high (o + n) := by
    rw [hh.nextExpectedByte_union hhb hn]
    exact congrArg (max · (o + n)) h.nextExpectedByte
  have hcons : b.totalBytesRead = s.numBytesConsumed := hbR
  refine ⟨?_, hcons, ?_⟩
  · exact {
      h with
      holds := ⟨_, hhb⟩
      highestOffset := by rw [h.highestOffset]
      nextExpectedByte := hnext
      high_le := Nat.max_le.2 ⟨h.high_le, hL⟩
      reported := h.reported.trans hcons.symm
      closing := fun hs => isClosed_mono (h.closing hs) rfl (le_of_eq hcons.symm) }
  · have hdup : (Set.Ico o (o + n) \ rcv).ncard = 0 → ¬ s.readableBytes < b.readableBytes := by
      intro h0
      exact not_lt.2 (le_of_eq (hh.readableBytes_duplicate hhb hbR h0))
    unfold onBytesWritten
    dsimp only
    split
    next h0 =>
      exact (if_neg (hdup h0)).symm
    · rw [h.blocked, h.levelTriggered]
      simp only [Bool.false_eq_true, if_false, if_true]

structure Delivered (S : Nat → UInt8) (L high : Nat) (fin : Bool) (s b t : Sequencer) : Prop where
  inv : Inv S L high fin t
  error : t.error = s.error
  ignoreReadData : t.ignoreReadData = s.ignoreReadData
  available : s.ignoreReadData = false → t.numBytesConsumed = s.numBytesConsumed ∧ t.readableBytes = b.readableBytes ∧
    t.calls = if s.readableBytes < b.readableBytes then .onDataAvailable :: s.calls else s.calls
  flushed : s.ignoreReadData = true → s.readableBytes < b.readableBytes → Flushed high s t
  kept : s.ignoreReadData = true → ¬ s.readableBytes < b.readableBytes → t.numBytesConsumed = s.numBytesConsumed

theorem Inv.onFrameData (h : Inv S L high fin s) (enabled : Bool) {o n : Nat} (hn : 0 < n) (hL : o + n ≤ L) :
    (∃ e, (s.onFrameData enabled o (piece S o n)).error = some e ∧ Harmless e) ∨
    Delivered S L (max high (o + n)) fin s (s.buffered enabled o (piece S o n))
      (s.onFrameData enabled o (piece S o n)) := by
  rcases h.onFrameData_cases enabled hn hL with he | ⟨hb, hc, ht⟩
  · exact .inl he
  right
  rw [ht]
  generalize hbs : s.buffered enabled o (piece S o n) = b at hb hc
  obtain ⟨hbe, hbi, hbc⟩ : b.error = s.error ∧ b.ignoreReadData = s.ignoreReadData ∧ b.calls = s.calls := by
    subst hbs
    exact ⟨rfl, rfl, rfl⟩
  split
  next hlt =>
    rw [notify]
    cases hi : s.ignoreReadData with
    | true =>
      obtain ⟨hinv, hfl⟩ := hb.flushBufferedFrames (hbi.trans hi)
      rw [hbi, hi, if_pos rfl]
      exact {
        inv := hinv
        error := hfl.error.trans hbe
        ignoreReadData := hfl.ignoreReadData.trans hbi
        available := fun h0 => absurd (hi.symm.trans h0) (by decide)
        flushed := fun _ _ => { hfl with
          error := hfl.error.trans hbe
          ignoreReadData := hfl.ignoreReadData.trans hbi
          calls := by
            rw [← hbc, ← hc]
            exact hfl.calls }
        kept := fun _ hn => absurd hlt hn }
    | false =>
      rw [hbi, hi, if_neg Bool.false_ne_true]
      exact {
        inv := { hb with
          reported := hb.reported
          ignored := fun h0 => absurd ((hbi.trans hi).symm.trans h0) (by decide) }
        error := hbe
        ignoreReadData := hbi
        available := fun _ => ⟨hc, rfl, by
          rw [if_pos hlt, ← hbc]
          rfl⟩
        flushed := fun h0 => absurd (hi.symm.trans h0) (by decide)
        kept := fun h0 => absurd (hi.symm.trans h0) (by decide) }
  next hlt =>
    exact {
      inv := { hb with
        ignored := fun h0 => by
          have := h.ignored (hbi.symm.trans h0)
          omega }
      error := hbe
      ignoreReadData := hbi
      available := fun _ => ⟨hc, rfl, by rw [if_neg hlt, hbc]⟩
      flushed := fun _ h1 => absurd h1 hlt
      kept := fun _ _ => hc }

variable {b : Sequencer}

theorem Delivered.announced (h : Delivered S L high fin s b t) (hlt : s.readableBytes < t.readableBytes) :
    t.calls = .onDataAvailable :: s.calls := by
  cases hi : s.ignoreReadData with
  | true =>
    have := h.inv.ignored (h.ignoreReadData.trans hi)
    omega
  | false =>
    obtain ⟨-, hr, hc⟩ := h.available hi
    rw [hc, if_pos (hr ▸ hlt)]

theorem Delivered.closes {before : Nat} (h : Delivered S L high fin s b t) (hb : Base S L before fin s)
    (hs : s.isClosed = false)
    (ht : t.isClosed = true) :
    s.ignoreReadData = true ∧ ∃ k, t.calls = .onFinRead :: .addBytesConsumed k :: s.calls := by
  have hmoved : t.numBytesConsumed ≠ s.numBytesConsumed := by
    intro he
    have hc := isClosed_mono (t := s) ht (hb.closeOffset.trans h.inv.closeOffset.symm) (le_of_eq he)
    rw [hs] at hc
    cases hc
  cases hi : s.ignoreReadData with
  | false => exact absurd (h.available hi).1 hmoved
  | true =>
    refine ⟨rfl, ?_⟩
    by_cases hlt : s.readableBytes < b.readableBytes
    · have hfl := h.flushed hi hlt
      exact ⟨_, hfl.calls.trans (if_pos ht)⟩
    · exact absurd (h.kept hi hlt) hmoved

/-! ## Steps -/

def Sound (S : Nat → UInt8) (L high : Nat) (fin : Bool) (s : Sequencer) : Prop :=
  (s.error = none → Inv S L high fin s) ∧ ∀ e, s.error = some e → Harmless e

theorem Inv.sound (h : Inv S L high fin s) (he : s.error = none) : Sound S L high fin s :=
  ⟨fun _ => h, fun e he' => by cases he.symm.trans he'⟩

theorem sound_of_error {e : SequencerError} (he : s.error = some e) (hh : Harmless e) : Sound S L high fin s := by
  refine ⟨fun h0 => (by cases he.symm.trans h0), fun e' he' => ?_⟩
  cases he.symm.trans he'
  exact hh

theorem Sound.idle (h : Sound S L high fin s) : Sound S L (max high 0) (fin || false) s := by
  rwa [Nat.max_zero, Bool.or_false]

def dataEnd : Option (Nat × Bytes) → Nat
  | none => 0
  | some (o, data) => o + data.length

theorem Inv.resume (h : Inv S L high fin s) (enabled : Bool) (he : s.error = none) {rest : Option (Nat × Bytes)}
    (hr : Consistent S L rest) :
    Sound S L (max high (dataEnd rest)) fin (s.resume enabled rest) := by
  cases rest with
  | none =>
    rw [dataEnd, Nat.max_zero]
    exact h.sound he
  | some r =>
    obtain ⟨o, data⟩ := r
    obtain ⟨hne, hd, hL⟩ := hr o data rfl
    have hn : 0 < data.length := length_pos_iff.2 hne
    rw [dataEnd, Sequencer.resume, hd]
    rw [length_piece]
    rcases h.onFrameData enabled hn hL with ⟨e, hee, hh⟩ | hdel
    · exact sound_of_error hee hh
    · exact hdel.inv.sound (hdel.error.trans he)

variable {data : Bytes}

theorem consistent_frameData (hd : data = piece S o data.length) (hL : o + data.length ≤ L) :
    Consistent S L (frameData o data) ∧ dataEnd (frameData o data) = if data = [] then 0 else o + data.length := by
  unfold frameData
  by_cases h0 : data = []
  · rw [if_pos h0, if_pos h0]
    exact ⟨nofun, rfl⟩
  · rw [if_neg h0, if_neg h0]
    refine ⟨fun o' data' he => ?_, rfl⟩
    cases he
    exact ⟨h0, hd, hL⟩

theorem Inv.closeStreamAtOffset (h : Inv S L high fin s) (hs : s.stack = []) :
    ∃ t, s.closeStreamAtOffset L = .ok t ∧ Inv S L high true t ∧ t = { s with closeOffset := some L } := by
  have hle : ¬ L < s.highestOffset := by
    rw [h.highestOffset]
    exact not_lt.2 h.high_le
  have hoff : s.closeOffset.any (· ≠ L) = false := by
    rw [h.closeOffset]
    cases fin <;> simp
  unfold Sequencer.closeStreamAtOffset
  rw [hoff, if_neg Bool.false_ne_true, if_neg hle]
  exact ⟨_, rfl, { h with closeOffset := rfl, closing := fun hn => absurd hs hn }, rfl⟩

theorem Inv.onStreamFrame (h : Inv S L high fin s) (he : s.error = none) (hs : s.stack = []) {o : Nat} {data : Bytes}
    (hd : data = piece S o data.length) (hL : o + data.length ≤ L) {f : Bool} (hf : f = true → o + data.length = L) :
    Sound S L (max high (if data = [] then 0 else o + data.length)) (fin || f) (s.onStreamFrame enabled o data f) := by
  obtain ⟨hcon, hend⟩ := consistent_frameData hd hL
  rw [← hend]
  unfold Sequencer.onStreamFrame
  cases f with
  | false =>
    rw [if_neg Bool.false_ne_true, Bool.or_false]
    exact h.resume enabled he hcon
  | true =>
    obtain ⟨t, ht, hinv, hte⟩ := h.closeStreamAtOffset hs
    have hterr : t.error = none := by rw [hte]; exact he
    rw [if_pos rfl, hf rfl, ht, Bool.or_true]
    dsimp only
    rw [hinv.blocked, Bool.false_or]
    cases hc : t.isClosed with
    | true =>
      -- Everything has been consumed, so the frame adds nothing.
      have hhigh := hinv.high_of_closed hc
      have hmax : max high (dataEnd (frameData o data)) = high := by
        rw [hend]
        split <;> omega
      rw [hmax]
      exact (hinv.passUpTermination hc hcon).sound hterr
    | false => exact hinv.resume enabled hterr hcon

variable {rest : Option (Nat × Bytes)}

section
variable (h : Inv S L high fin s)
include h

theorem Inv.flat {b : QuicStreamSequencerBuffer} (hb : Flat kStreamReceiveWindowLimit S b) (hc : s.isClosed = true)
    (htotal : b.totalBytesRead = s.numBytesConsumed) : Inv S L high fin { s with bufferedFrames := b } :=
  { h with
    holds := ⟨_, hb.holds⟩
    nextExpectedByte := by
      rw [h.high_of_closed hc, ← (h.isClosed_iff.1 hc).2, ← htotal]
      exact hb.nextExpectedByte
    ignored := fun _ => hb.readableBytes
    reported := h.reported.trans htotal.symm
    closing := fun _ => isClosed_mono hc rfl htotal.ge }

theorem Inv.cleared {stack : List (Option (Nat × Bytes))}
    (hs : s.stack = rest :: stack) : high = L ∧ Consistent S L rest ∧
    Inv S L high fin { s with bufferedFrames := s.bufferedFrames.clear, stack := stack } ∧
    s.bufferedFrames.clear.readableBytes = 0 := by
  have hc := h.closing (by rw [hs]; exact cons_ne_nil _ _)
  have hrests : ∀ r ∈ rest :: stack, Consistent S L r := hs ▸ h.rests
  obtain ⟨rcv, hh⟩ := h.holds
  refine ⟨h.high_of_closed hc, hrests rest mem_cons_self, ?_, hh.clear.readableBytes⟩
  exact { h.flat hh.clear hc rfl with
    closing := fun _ => hc
    rests := fun r hr => hrests r (mem_cons_of_mem _ hr) }

theorem Inv.callReturns (he : s.error = none) : Sound S L high fin (s.callReturns enabled) := by
  unfold Sequencer.callReturns
  cases hs : s.stack with
  | nil => exact h.sound he
  | cons rest stack =>
    obtain ⟨hhigh, hcon, hinv, -⟩ := h.cleared hs
    have hmax : max high (dataEnd rest) = high := by
      cases rest with
      | none => exact Nat.max_zero high
      | some r =>
        have := (hcon r.1 r.2 rfl).2.2
        exact max_eq_left (hhigh.symm ▸ this)
    have hres := hinv.resume enabled he hcon
    rw [hmax] at hres
    exact hres

theorem Inv.consume {rcv : Set Nat} {b : QuicStreamSequencerBuffer}
    (hb : Holds kStreamReceiveWindowLimit S rcv b) (htotal : b.totalBytesRead = s.bufferedFrames.totalBytesRead + n)
    (hrec : b.bytesReceived = s.bufferedFrames.bytesReceived) :
    Inv S L high fin ({ s with bufferedFrames := b }.call (.addBytesConsumed n)) :=
  { h with
    holds := ⟨rcv, hb⟩
    nextExpectedByte := by
      change b.nextExpectedByte = high
      rw [nextExpectedByte, hrec]
      exact h.nextExpectedByte
    ignored := fun hi => by
      have h0 : s.bufferedFrames.readableBytes = 0 := h.ignored hi
      change b.readableBytes = 0
      rw [readableBytes_of_eq htotal hrec, h0, Nat.zero_sub]
    reported := by
      change bytesReported s.calls + n = b.totalBytesRead
      rw [h.reported, htotal]
      rfl
    closing := fun hs => isClosed_mono (h.closing hs) rfl (le_trans (Nat.le_add_right _ n) (le_of_eq htotal.symm)) }

theorem Inv.readv (dests : List Nat) : ∃ n b, (s.readv dests).2 =
    { s with bufferedFrames := b }.call (.addBytesConsumed n) ∧ b.readableBytes = s.readableBytes - n ∧
    Inv S L high fin (s.readv dests).2 := by
  obtain ⟨rcv, hh⟩ := h.holds
  have hread := hh.readv enough_blocks dests
  have heq : (s.readv dests).2 = { s with bufferedFrames := (s.bufferedFrames.readv dests).buffer }.call
      (.addBytesConsumed (min dests.sum s.bufferedFrames.readableBytes)) := by
    unfold Sequencer.readv
    dsimp only
    rw [hread.error, hread.bytes, length_piece]
  refine ⟨_, _, heq, readableBytes_of_eq hread.totalBytesRead hread.bytesReceived, ?_⟩
  rw [heq]
  exact h.consume hread.holds hread.totalBytesRead hread.bytesReceived

theorem Inv.markConsumed (n : Nat) : s.markConsumed n = s.onUnrecoverableError .invalidMarkConsumed ∨
    ∃ b, s.markConsumed n = { s with bufferedFrames := b }.call (.addBytesConsumed n) ∧
      b.readableBytes = s.readableBytes - n ∧ Inv S L high fin (s.markConsumed n) := by
  obtain ⟨rcv, hh⟩ := h.holds
  obtain ⟨hok, hm, htotal, hrec⟩ := hh.markConsumed enough_blocks n
  by_cases hn : n ≤ s.bufferedFrames.readableBytes
  · right
    rw [if_pos hn] at htotal
    have heq : s.markConsumed n =
      { s with bufferedFrames := (s.bufferedFrames.markConsumed n).2 }.call (.addBytesConsumed n) := by
      unfold Sequencer.markConsumed
      dsimp only
      rw [hok, if_pos (decide_eq_true hn)]
    refine ⟨_, heq, readableBytes_of_eq htotal hrec, ?_⟩
    rw [heq]
    exact h.consume hm htotal hrec
  · left
    unfold Sequencer.markConsumed
    dsimp only
    rw [hok, if_neg (by simpa using hn)]

theorem Inv.releaseBuffer (hc : s.isClosed = true) : Inv S L high fin s.releaseBuffer := by
  obtain ⟨rcv, hh⟩ := h.holds
  exact h.flat hh.releaseWholeBuffer hc rfl

theorem Inv.stopReading (hi : s.ignoreReadData = false) :
    Inv S L high fin s.stopReading ∧ Flushed high { s with ignoreReadData := true } s.stopReading := by
  unfold Sequencer.stopReading
  rw [hi, if_neg Bool.false_ne_true]
  have hb : Base S L high fin { s with ignoreReadData := true } := { h.toBase with reported := h.reported }
  exact hb.flushBufferedFrames rfl

end

variable {e : Ev} {s' : Sequencer}

theorem Inv.step (h : Inv S L high fin s) (hs : step enabled S L s e = some s') :
    Sound S L (max high e.dataEnd) (fin || e.isFin) s' := by
  obtain ⟨he, hs⟩ := ite_none_right_eq_some.1 hs
  cases e with
  | onStreamFrame o data f =>
    obtain ⟨⟨hst, hd, hL, hf⟩, ⟨⟩⟩ := ite_none_right_eq_some.1 hs
    exact h.onStreamFrame he hst hd hL hf
  | readv dests =>
    cases hs
    obtain ⟨n, b, heq, -, hinv⟩ := h.readv dests
    exact (hinv.sound (heq ▸ he)).idle
  | markConsumed n =>
    cases hs
    rcases h.markConsumed n with heq | ⟨b, heq, -, hinv⟩
    · rw [heq]
      exact sound_of_error rfl (.inl rfl)
    · exact (hinv.sound (heq ▸ he)).idle
  | stopReading =>
    cases hs
    cases hi : s.ignoreReadData with
    | true =>
      rw [Sequencer.stopReading, if_pos hi]
      exact (h.sound he).idle
    | false =>
      obtain ⟨hinv, hfl⟩ := h.stopReading hi
      exact (hinv.sound (hfl.error.trans he)).idle
  | releaseBuffer =>
    obtain ⟨hc, ⟨⟩⟩ := ite_none_right_eq_some.1 hs
    exact ((h.releaseBuffer hc).sound he).idle
  | callReturns =>
    cases hs
    exact (h.callReturns he).idle

/-! ## What the stream is told -/

section
variable (h : Inv S L high fin s) (hr : Consistent S L rest) (he : (s.resume enabled rest).error = none)
include h hr he

theorem Inv.resume_delivered :
    s.resume enabled rest = s ∨ ∃ high' b, Delivered S L high' fin s b (s.resume enabled rest) := by
  cases rest with
  | none => exact .inl rfl
  | some r =>
    obtain ⟨o, data⟩ := r
    obtain ⟨hne, hd, hL⟩ := hr o data rfl
    rw [Sequencer.resume, hd] at he ⊢
    rcases h.onFrameData enabled (length_pos_iff.2 hne) hL with ⟨e, hee, -⟩ | hdel
    · cases he.symm.trans hee
    · exact .inr ⟨_, _, hdel⟩

theorem Inv.resume_announced (hlt : s.readableBytes < (s.resume enabled rest).readableBytes) :
    (s.resume enabled rest).calls = .onDataAvailable :: s.calls := by
  rcases h.resume_delivered hr he with heq | ⟨_, _, hdel⟩
  · exact absurd hlt (heq.symm ▸ lt_irrefl _)
  · exact hdel.announced hlt

theorem Inv.resume_closes (hs : s.isClosed = false) (hc : (s.resume enabled rest).isClosed = true) :
    s.ignoreReadData = true ∧ ∃ k, (s.resume enabled rest).calls = .onFinRead :: .addBytesConsumed k :: s.calls := by
  rcases h.resume_delivered hr he with heq | ⟨_, _, hdel⟩
  · rw [heq, hs] at hc
    cases hc
  · exact hdel.closes h.toBase hs hc

end

theorem Inv.announced (h : Inv S L high fin s) (hs : Sequencer.step enabled S L s e = some s')
    (he' : s'.error = none) (hlt : s.readableBytes < s'.readableBytes) : s'.calls = .onDataAvailable :: s.calls := by
  obtain ⟨he, hs⟩ := ite_none_right_eq_some.1 hs
  cases e with
  | onStreamFrame o data f =>
    obtain ⟨⟨hst, hd, hL, hf⟩, ⟨⟩⟩ := ite_none_right_eq_some.1 hs
    have hcon := (consistent_frameData hd hL).1
    unfold Sequencer.onStreamFrame at he' hlt ⊢
    cases f with
    | false => exact h.resume_announced hcon he' hlt
    | true =>
      obtain ⟨t, ht, hinv, hte⟩ := h.closeStreamAtOffset hst
      rw [if_pos rfl, hf rfl, ht] at he' hlt ⊢
      dsimp only at he' hlt ⊢
      have hcalls : t.calls = s.calls := by rw [hte]
      have hread : t.readableBytes = s.readableBytes := by rw [hte]; rfl
      rw [← hread] at hlt
      rw [← hcalls]
      split at hlt
      next hop =>
        rw [if_pos hop] at he' ⊢
        exact hinv.resume_announced hcon he' hlt
      · exact absurd hlt (lt_irrefl _)
  | readv dests =>
    cases hs
    obtain ⟨n, b, heq, hread, -⟩ := h.readv dests
    rw [heq] at hlt
    change s.readableBytes < b.readableBytes at hlt
    omega
  | markConsumed n =>
    cases hs
    rcases h.markConsumed n with heq | ⟨b, heq, hread, -⟩
    · rw [heq] at he'
      cases he'
    · rw [heq] at hlt
      change s.readableBytes < b.readableBytes at hlt
      omega
  | stopReading =>
    cases hs
    cases hi : s.ignoreReadData with
    | true =>
      rw [Sequencer.stopReading, if_pos hi] at hlt
      exact absurd hlt (lt_irrefl _)
    | false =>
      have := (h.stopReading hi).2.readableBytes
      omega
  | releaseBuffer =>
    obtain ⟨hc, ⟨⟩⟩ := ite_none_right_eq_some.1 hs
    obtain ⟨rcv, hh⟩ := h.holds
    have h0 : s.releaseBuffer.readableBytes = 0 := hh.releaseWholeBuffer.readableBytes
    omega
  | callReturns =>
    cases hs
    unfold Sequencer.callReturns at he' hlt ⊢
    cases hst : s.stack with
    | nil =>
      rw [hst] at hlt
      exact absurd hlt (lt_irrefl _)
    | cons rest stack =>
      obtain ⟨-, hcon, hinv, h0⟩ := h.cleared hst
      rw [hst] at he' hlt
      refine hinv.resume_announced hcon he' (lt_of_le_of_lt ?_ hlt)
      exact le_trans (le_of_eq h0) (Nat.zero_le _)

theorem Inv.closes (h : Inv S L high fin s) (hst : s.stack = []) (hd : data = piece S o data.length)
    (hL : o + data.length ≤ L) {f : Bool} (hf : f = true → o + data.length = L)
    (he : (s.onStreamFrame enabled o data f).error = none) (hc : (s.onStreamFrame enabled o data f).isClosed = true)
    (hnew : f = true ∨ s.isClosed = false) :
    ∃ calls, (s.onStreamFrame enabled o data f).calls = s.endCall :: calls ++ s.calls := by
  have hcon := (consistent_frameData hd hL).1
  unfold Sequencer.onStreamFrame at he hc ⊢
  cases f with
  | false =>
    obtain ⟨hi, k, hcalls⟩ := h.resume_closes hcon he (hnew.resolve_left Bool.false_ne_true) hc
    refine ⟨[.addBytesConsumed k], ?_⟩
    rw [if_neg Bool.false_ne_true, hcalls, endCall, hi]
    rfl
  | true =>
    obtain ⟨t, ht, hinv, hte⟩ := h.closeStreamAtOffset hst
    rw [if_pos rfl, hf rfl, ht] at he hc ⊢
    dsimp only at he hc ⊢
    rw [hinv.blocked, Bool.false_or] at he hc ⊢
    have hcalls : t.calls = s.calls := by rw [hte]
    have hign : t.ignoreReadData = s.ignoreReadData := by rw [hte]
    rw [← hcalls, endCall, ← hign]
    cases hcl : t.isClosed with
    | true => exact ⟨[], rfl⟩
    | false =>
      rw [hcl] at he hc
      obtain ⟨hi, k, hcalls'⟩ := hinv.resume_closes hcon he hcl hc
      refine ⟨[.addBytesConsumed k], ?_⟩
      rw [hi]
      exact hcalls'

theorem highestReceived_append (es : List Ev) (e : Ev) :
    highestReceived (es ++ [e]) = max (highestReceived es) e.dataEnd := by
  rw [highestReceived, foldl_append]
  rfl

theorem finReceived_append (es : List Ev) (e : Ev) : finReceived (es ++ [e]) = (finReceived es || e.isFin) := by
  simp [finReceived]

theorem sound_run {es : List Ev} (hr : Lts.run (step enabled S L) { levelTriggered := true } es = some s) :
    Sound S L (highestReceived es) (finReceived es) s := by
  refine Lts.run_hist (I := fun es s => Sound S L (highestReceived es) (finReceived es) s)
    (fun es s e s' h hs => ?_) ((inv_init S L).sound rfl) hr
  rw [highestReceived_append, finReceived_append]
  have he : s.error = none := (ite_none_right_eq_some.1 hs).1
  exact (h.1 he).step hs

theorem Inv.onStreamData_old (h : Inv S L high fin s) (enabled : Bool) {o n : Nat} (hn : 0 < n)
    (hle : o + n ≤ s.numBytesConsumed) :
    (s.bufferedFrames.onStreamData enabled o (piece S o n)).2 = s.bufferedFrames ∧
      ((∃ e, (s.bufferedFrames.onStreamData enabled o (piece S o n)).1 = .error e) ∨
        (s.bufferedFrames.onStreamData enabled o (piece S o n)).1 = .ok 0) := by
  obtain ⟨rcv, hh⟩ := h.holds
  exact hh.onStreamData_old enabled hn fun p hp => hh.consumed p (lt_of_lt_of_le hp.2 hle)

theorem Inv.onStreamFrame_old (h : Inv S L high fin s) (hle : o + n ≤ s.numBytesConsumed)
    (he : (s.onStreamFrame enabled o (piece S o n) false).error = none) :
    s.onStreamFrame enabled o (piece S o n) false = s := by
  unfold Sequencer.onStreamFrame frameData at he ⊢
  rw [if_neg Bool.false_ne_true] at he ⊢
  by_cases hn : n = 0
  · rw [if_pos (piece_eq_nil.2 hn)]
    rfl
  rw [if_neg (mt piece_eq_nil.1 hn)] at he ⊢
  obtain ⟨hsame, hres⟩ := h.onStreamData_old enabled (pos_of_ne_zero hn) hle
  have hmax : max s.highestOffset (o + n) = s.highestOffset := by
    have := h.consumed_le
    rw [h.highestOffset]
    omega
  unfold Sequencer.resume Sequencer.onFrameData at he ⊢
  dsimp only at he ⊢
  rw [length_piece, hmax, hsame] at he ⊢
  rcases hres with ⟨e, hee⟩ | hok
  · rw [hee] at he
    cases he
  · rw [hok]
    rfl

theorem Inv.flushed (h : Inv S L high fin s) (hst : s.stack = []) (hi : s.ignoreReadData = true) {o n : Nat}
    (hn : 0 < n) (hL : o + n ≤ L) {f : Bool} (hf : f = true → o + n = L)
    (he : (s.onStreamFrame enabled o (piece S o n) f).error = none)
    (hlt : s.readableBytes < (s.buffered enabled o (piece S o n)).readableBytes) :
    Flushed (max high (o + n)) s (s.onStreamFrame enabled o (piece S o n) f) := by
  have hne : piece S o n ≠ [] := mt piece_eq_nil.1 (ne_of_gt hn)
  unfold Sequencer.onStreamFrame frameData at he ⊢
  rw [if_neg hne] at he ⊢
  cases f with
  | false =>
    rcases h.onFrameData enabled hn hL with ⟨e, hee, -⟩ | hdel
    · rw [if_neg Bool.false_ne_true] at he
      exact absurd (he.symm.trans hee) (by simp)
    · exact hdel.flushed hi hlt
  | true =>
    obtain ⟨t, ht, hinv, hte⟩ := h.closeStreamAtOffset hst
    rw [if_pos rfl, length_piece, hf rfl, ht] at he ⊢
    dsimp only at he ⊢
    rw [hinv.blocked, Bool.false_or] at he ⊢
    cases hcl : t.isClosed with
    | true =>
      -- At the end of the stream there is nothing new.
      have hcons : s.numBytesConsumed = L := by
        have := (hinv.isClosed_iff.1 hcl).2
        rwa [hte] at this
      have hsame := (h.onStreamData_old enabled hn (o := o) (by omega)).1
      unfold buffered readableBytes at hlt
      rw [hsame] at hlt
      exact absurd hlt (lt_irrefl _)
    | false =>
      rw [hcl] at he
      subst hte
      rcases hinv.onFrameData enabled hn hL with ⟨e, hee, -⟩ | hdel
      · exact absurd (he.symm.trans hee) (by simp)
      · have hfl := hdel.flushed hi hlt
        rw [hf rfl] at hfl
        exact { hfl with calls := hfl.calls }

/-- **The end of the stream.** -/
theorem end_of_stream {es : List Ev} (hr : Lts.run (step enabled S L) { levelTriggered := true } es = some s) :
    (∀ e, s.error = some e → Harmless e) ∧
    (s.error = none →
      (s.isClosed = true ↔ finReceived es = true ∧ s.numBytesConsumed = L) ∧
      -- Notifications
      (∀ e s', step enabled S L s e = some s' → s'.error = none → s.readableBytes < s'.readableBytes →
        s'.calls = .onDataAvailable :: s.calls) ∧
      (s.stack = [] → ∀ o n f, o + n ≤ L → (f = true → o + n = L) →
        (s.onStreamFrame enabled o (piece S o n) f).error = none →
          (s.onStreamFrame enabled o (piece S o n) f).isClosed = true →
        f = true ∨ s.isClosed = false →
        ∃ calls, (s.onStreamFrame enabled o (piece S o n) f).calls = s.endCall :: calls ++ s.calls) ∧
      -- After `StopReading()`
      (s.ignoreReadData = false → Flushed (highestReceived es) { s with ignoreReadData := true } s.stopReading) ∧
      (s.ignoreReadData = true → s.readableBytes = 0 ∧
        (s.stack = [] → ∀ o n f, 0 < n → o + n ≤ L → (f = true → o + n = L) →
        (s.onStreamFrame enabled o (piece S o n) f).error = none →
        s.readableBytes < (s.buffered enabled o (piece S o n)).readableBytes →
        Flushed (max (highestReceived es) (o + n)) s (s.onStreamFrame enabled o (piece S o n) f))) ∧
      (∀ o n, o + n ≤ s.numBytesConsumed → (s.onStreamFrame enabled o (piece S o n) false).error = none →
        s.onStreamFrame enabled o (piece S o n) false = s) ∧
      bytesReported s.calls = s.numBytesConsumed) := by
  obtain ⟨hsound, hharm⟩ := sound_run hr
  refine ⟨hharm, fun he => ?_⟩
  have h := hsound he
  refine ⟨h.isClosed_iff, fun _ _ => h.announced, fun hst o n f hL hf he' hc hnew => ?_, fun hi => (h.stopReading hi).2,
    fun hi => ⟨h.ignored hi, fun hst _ _ _ hn hL => h.flushed hst hi hn hL⟩, fun _ _ => h.onStreamFrame_old, h.reported⟩
  have hlen : (piece S o n).length = n := length_piece S o n
  exact h.closes hst (by rw [hlen]) (by rw [hlen]; exact hL) (by rw [hlen]; exact hf) he' hc hnew

theorem end_of_stream_skipped : ∃ s : Sequencer,
    Lts.run (step true (fun p => UInt8.ofNat p) 6) { levelTriggered := true } [.onStreamFrame 6 [] true,
      .onStreamFrame 4 [4, 5] false, .onStreamFrame 0 [0, 1] false, .readv [1], .stopReading] = some s ∧
    s.isClosed = true ∧ s.calls = [.onFinRead, .addBytesConsumed 5, .addBytesConsumed 1, .onDataAvailable] ∧
    bytesReported s.calls = 6 ∧ s.onStreamFrame true 2 [2, 3] false = s := by
  have hr : Lts.run (step true (fun p => UInt8.ofNat p) 6) { levelTriggered := true } [.onStreamFrame 6 [] true,
      .onStreamFrame 4 [4, 5] false, .onStreamFrame 0 [0, 1] false, .readv [1], .stopReading] = some _ := rfl
  obtain ⟨hclosed, -, -, -, -, hold, hreported⟩ := (end_of_stream hr).2 rfl
  exact ⟨_, hr, hclosed.2 ⟨rfl, rfl⟩, rfl, hreported, hold 2 2 (by decide) rfl⟩

end

end Sequencer

end Quictun
