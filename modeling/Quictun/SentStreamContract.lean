import Quictun.SendBufferContract
import Quictun.SentStream

/-!
# Nothing lost is forgotten

What the flags and intervals of a stream say is read off its log: which bytes were sent, which were
acknowledged, and which were lost and not sent again since. `Tracks` states the correspondence. Each
call keeps it, so it holds after every run. What the log has of acknowledgements and losses is what the
calls of the run report.
-/

namespace Quictun

open QuicIntervalSet Set List

/-! ## Reading the log -/

namespace Note

def range (n : Note) : Set Nat := Set.Ico n.offset (n.offset + n.length)

def touches (n : Note) (p : Nat) : Bool := n.offset ≤ p && p < n.offset + n.length

theorem touches_iff {n : Note} {p : Nat} : n.touches p = true ↔ p ∈ n.range := by
  simp [touches, range]

end Note

def bytesOf (kind : NoteKind) : List Note → Set Nat
  | [] => ∅
  | n :: log => if n.kind = kind then bytesOf kind log ∪ n.range else bytesOf kind log

def lostBytes : List Note → Set Nat
  | [] => ∅
  | n :: log =>
    if n.kind = .lost then lostBytes log ∪ n.range
    else if n.kind = .retransmitted then lostBytes log \ n.range
    else lostBytes log

def finOf (kind : NoteKind) (log : List Note) : Bool := log.any fun n => n.kind = kind && n.fin

def finLostIn : List Note → Bool
  | [] => false
  | n :: log =>
    if n.kind = .lost then finLostIn log || n.fin
    else if n.kind = .retransmitted then finLostIn log && !n.fin
    else finLostIn log

def latest (log : List Note) (p : Nat) : Option NoteKind := (log.find? fun n => n.touches p).map Note.kind

def latestFin (log : List Note) : Option NoteKind := (log.find? Note.fin).map Note.kind

theorem mem_lostBytes_of_latest {p : Nat} : ∀ {log : List Note}, latest log p = some .lost → p ∈ lostBytes log
  | [], h => by cases h
  | n :: log, h => by
    rw [latest, find?_cons] at h
    rw [lostBytes]
    by_cases ht : n.touches p = true
    · rw [ht] at h
      rw [if_pos (Option.some.inj h)]
      exact .inr (Note.touches_iff.1 ht)
    · rw [Bool.not_eq_true] at ht
      rw [ht] at h
      have hp := mem_lostBytes_of_latest h
      have hn : p ∉ n.range := fun hp => by rw [Note.touches_iff.2 hp] at ht; cases ht
      split
      · exact .inl hp
      · split
        · exact ⟨hp, hn⟩
        · exact hp

theorem finLostIn_of_latest : ∀ {log : List Note}, latestFin log = some .lost → finLostIn log = true
  | [], h => by cases h
  | n :: log, h => by
    rw [latestFin, find?_cons] at h
    rw [finLostIn]
    cases hf : n.fin with
    | true =>
      rw [hf] at h
      rw [if_pos (Option.some.inj h), Bool.or_true]
    | false =>
      rw [hf] at h
      have hl := finLostIn_of_latest h
      simp [hl]

def Note.isReport (n : Note) : Bool := n.kind = .acked || n.kind = .lost

def SentStream.Ev.report : SentStream.Ev → Option Note
  | .onStreamFrameAcked o n fin _ => some ⟨.acked, o, n, fin⟩
  | .onStreamFrameLost o n fin => some ⟨.lost, o, n, fin⟩
  | _ => none

/-- What the calls of a run report of its frames, the latest first. -/
def reports (es : List SentStream.Ev) : List Note := (es.filterMap SentStream.Ev.report).reverse

theorem bytesOf_reports : ∀ log : List Note, bytesOf .acked (log.filter Note.isReport) = bytesOf .acked log
  | [] => rfl
  | n :: log => by
    rw [filter_cons, bytesOf, ← bytesOf_reports log]
    by_cases hn : n.kind = .acked
    · simp [Note.isReport, hn, bytesOf]
    · rw [if_neg hn]
      split
      · exact if_neg hn
      · rfl

theorem finOf_reports (log : List Note) : finOf .acked (log.filter Note.isReport) = finOf .acked log := by
  rw [finOf, any_filter]
  refine any_congr rfl fun n => ?_
  cases h : n.kind <;> simp [Note.isReport, h]

/-- `R` are the reports, and `old` is the history at some time before. -/
structure Hist (R old log : List Note) : Prop where
  grows : old <:+ log
  reported : log.filter Note.isReport = R

section
variable {R old log : List Note} {n : Note} (h : Hist R old log)
include h

theorem Hist.cons (hn : n.isReport = false) : Hist R old (n :: log) :=
  ⟨h.grows.trans (suffix_cons n log), by rw [filter_cons, hn, ← h.reported]; rfl⟩

theorem Hist.report (hn : n.isReport = true) : Hist (n :: R) old (n :: log) :=
  ⟨h.grows.trans (suffix_cons n log), by rw [filter_cons, if_pos hn, h.reported]⟩

end

namespace QuicStreamSendBufferInlining

variable (s : QuicStreamSendBufferInlining)

theorem streamBytesWritten_saveMemSlice (d : Bytes) : (s.saveMemSlice d).streamBytesWritten = s.streamBytesWritten := by
  unfold saveMemSlice
  split <;> rfl

theorem streamBytesWritten_saveStreamData (m : Nat) (d : Bytes) :
    (s.saveStreamData m d).streamBytesWritten = s.streamBytesWritten := by
  have hchunks : ∀ (fuel : Nat) (s : QuicStreamSendBufferInlining) (d : Bytes),
      (saveChunks m fuel s d).streamBytesWritten = s.streamBytesWritten := by
    intro fuel
    induction fuel with
    | zero => exact fun _ _ => rfl
    | succ fuel ih =>
      intro s d
      rw [saveChunks]
      split
      · rfl
      · rw [ih, streamBytesWritten_saveMemSlice]
  unfold saveStreamData
  split
  · exact s.streamBytesWritten_saveMemSlice d
  · exact hchunks _ s d

theorem streamBytesWritten_saveMemSliceSpan (span : List Bytes) :
    (s.saveMemSliceSpan span).2.streamBytesWritten = s.streamBytesWritten := by
  unfold saveMemSliceSpan
  generalize 0 = n
  induction span generalizing s n with
  | nil => rfl
  | cons d span ih =>
    rw [foldl_cons]
    split
    · exact ih s n
    · rw [ih, streamBytesWritten_saveMemSlice]

theorem streamBytesWritten_onStreamDataRetransmitted (o n : Nat) :
    (s.onStreamDataRetransmitted o n).streamBytesWritten = s.streamBytesWritten := by
  unfold onStreamDataRetransmitted
  split <;> rfl

theorem streamBytesWritten_onStreamDataLost (o n : Nat) :
    (s.onStreamDataLost o n).streamBytesWritten = s.streamBytesWritten := by
  unfold onStreamDataLost
  split <;> rfl

end QuicStreamSendBufferInlining

open QuicStreamSendBufferInlining

namespace SentStream

variable {s : SentStream} {R old : List Note}

structure Tracks (R old : List Note) (s : SentStream) : Prop where
  hist : Hist R old s.log
  holds : s.sendBuffer.Holds (bytesOf .acked s.log) (lostBytes s.log \ bytesOf .acked s.log)
  sent : bytesOf .sent s.log = Set.Iio s.streamBytesWritten
  finSent : finOf .sent s.log = s.finSent
  finOutstanding : s.finOutstanding = (s.finSent && !finOf .acked s.log)
  finLost : s.finLost = (finLostIn s.log && !finOf .acked s.log)
  finAcked : finOf .acked s.log = true → s.finSent = true
  closed : s.finSent = true → s.writeSideClosed = true

theorem tracks_fresh : Tracks [] [] {} where
  hist := ⟨suffix_refl _, rfl⟩
  holds := by
    have h0 : lostBytes [] \ bytesOf .acked [] = ∅ := empty_sdiff _
    rw [h0]
    exact holds_fresh
  sent := by
    ext p
    simp [bytesOf, streamBytesWritten]
  finSent := rfl
  finOutstanding := rfl
  finLost := rfl
  finAcked h := by cases h
  closed h := by cases h

/-! ## Sending -/

theorem Tracks.reset (h : Tracks R old s) (errorOk : Bool) : Tracks R old (s.reset errorOk) :=
  { h with closed := fun _ => rfl }

theorem Tracks.save (h : Tracks R old s) {b : QuicStreamSendBufferInlining}
    (hb : b.Holds (bytesOf .acked s.log) (lostBytes s.log \ bytesOf .acked s.log))
    (hw : b.streamBytesWritten = s.streamBytesWritten)
    (finBuffered : Bool) : Tracks R old { s with sendBuffer := b, finBuffered := finBuffered } :=
  { h with
    holds := hb
    sent := h.sent.trans (congrArg Set.Iio hw.symm) }

section
variable (h : Tracks R old s) (hopen : s.writeSideClosed = false)
include h hopen

theorem Tracks.onWritten {f : StreamFrame} (ho : f.offset = s.streamBytesWritten)
    (hl : f.stop ≤ s.sendBuffer.streamOffset) (d : QuicConsumedData) :
    Tracks R old ((s.writevData .sent f (f.taken d)).onWritten f (f.taken d)) := by
  have hns : s.finSent = false := by
    cases hs : s.finSent with
    | false => rfl
    | true => exact absurd (h.closed hs) (by rw [hopen]; decide)
  have hna : finOf .acked s.log = false := by
    cases ha : finOf .acked s.log with
    | false => rfl
    | true => exact absurd (h.finAcked ha) (by rw [hns]; decide)
  have hn : (f.taken d).bytesConsumed ≤ f.length := min_le_right _ _
  have hfit : s.sendBuffer.streamBytesWritten + (f.taken d).bytesConsumed ≤ s.sendBuffer.streamOffset := by
    rw [StreamFrame.stop, ho, streamBytesWritten] at hl
    omega
  have hfin : (f.taken d).finConsumed = true → (f.taken d).bytesConsumed = f.length ∧ f.fin = true := by
    intro hc
    simp only [StreamFrame.taken, Bool.and_eq_true, decide_eq_true_eq] at hc ⊢
    exact ⟨min_eq_right hc.2, hc.1.1⟩
  generalize f.taken d = c at hn hfit hfin ⊢
  have hb := h.holds.onStreamDataConsumed hfit
  have hsent : Set.Iio s.streamBytesWritten ∪ Set.Ico f.offset (f.offset + c.bytesConsumed) =
      Set.Iio (s.streamBytesWritten + c.bytesConsumed) := by
    rw [ho, Set.Iio_union_Ico_eq_Iio (Nat.le_add_right _ _)]
  unfold SentStream.onWritten
  cases hc : c.finConsumed with
  | true =>
    obtain ⟨hlen, hf⟩ := hfin hc
    rw [if_pos ⟨hlen, hf, rfl⟩]
    exact {
      hist := h.hist.cons rfl
      holds := hb
      sent := (congrArg (· ∪ _) h.sent).trans hsent
      finSent := by simp [writevData, note, finOf, hc]
      finOutstanding := (congrArg (fun b => true && !b) hna).symm
      finLost := h.finLost
      finAcked := fun _ => rfl
      closed := fun _ => rfl }
  | false =>
    rw [if_neg fun hd => Bool.false_ne_true hd.2.2]
    exact {
      h with
      hist := h.hist.cons rfl
      holds := hb
      sent := (congrArg (· ∪ _) h.sent).trans hsent
      finSent := by simpa [writevData, note, finOf, hc] using h.finSent }

theorem Tracks.writeBufferedData (yield : Bool) (sendWindow : Nat)
    (d : QuicConsumedData) : Tracks R old (s.writeBufferedData yield sendWindow d) := by
  have hle := h.holds.written_le
  unfold SentStream.writeBufferedData
  split
  · exact h
  · split
    · exact h
    · refine h.onWritten hopen rfl ?_ d
      simp only [StreamFrame.stop, bufferedDataBytes, streamBytesWritten]
      omega

theorem Tracks.writeUnlessBuffered (had yield : Bool) (sendWindow : Nat)
    (d : QuicConsumedData) : Tracks R old (s.writeUnlessBuffered had yield sendWindow d) := by
  unfold SentStream.writeUnlessBuffered
  split
  · exact h.writeBufferedData hopen yield sendWindow d
  · exact h

end

theorem Tracks.writeOrBufferData (h : Tracks R old s) {m : Nat} (hm : 0 < m) (data : Bytes) (fin yield : Bool)
    (sendWindow : Nat)
    (d : QuicConsumedData) : Tracks R old (s.writeOrBufferData m data fin yield sendWindow d) := by
  unfold SentStream.writeOrBufferData
  split
  · exact h
  split
  · exact h
  next hopen =>
    rw [Bool.or_eq_true, not_or, Bool.not_eq_true, Bool.not_eq_true] at hopen
    split
    · exact h.save h.holds rfl fin
    · split
      · exact (h.save h.holds rfl fin).writeUnlessBuffered hopen.2 _ _ _ _
      · have hsave :=
          h.save (h.holds.saveStreamData hm data).1 (s.sendBuffer.streamBytesWritten_saveStreamData m data) fin
        exact hsave.writeUnlessBuffered hopen.2 _ _ _ _

theorem Tracks.writeMemSlices (h : Tracks R old s) (threshold : Nat) (span : List Bytes)
    (fin unconditionally yield : Bool)
    (sendWindow : Nat) (d : QuicConsumedData) :
    Tracks R old (s.writeMemSlices threshold span fin unconditionally yield sendWindow d).2 := by
  have hsave := h.save (h.holds.saveMemSliceSpan span).1 (s.sendBuffer.streamBytesWritten_saveMemSliceSpan span)
  unfold SentStream.writeMemSlices
  split
  · exact h
  split
  · exact h
  next hopen =>
    rw [Bool.or_eq_true, not_or, Bool.not_eq_true, Bool.not_eq_true] at hopen
    split
    · dsimp only
      split
      · exact hsave s.finBuffered
      · exact (hsave fin).writeUnlessBuffered hopen.2 _ _ _ _
    · exact (h.save h.holds rfl false).writeUnlessBuffered hopen.2 _ _ _ _

/-! ## What becomes of a frame -/

theorem Tracks.onStreamFrameAcked (h : Tracks R old s) (enabled : Bool) {o n : Nat} {fin : Bool}
    (hs : s.Sendable o n fin)
    (probes : List Nat) : Tracks (⟨.acked, o, n, fin⟩ :: R) old
      ((s.note .acked o n fin).onStreamFrameAcked enabled o n fin probes).2.2 := by
  obtain ⟨b, hb, hholds, -, hw, -⟩ := h.holds.onStreamDataAcked enabled hs.1 probes
  have hfin : (!s.finSent && fin) = false := by
    cases hf : fin with
    | false => rw [Bool.and_false]
    | true => rw [hs.2 hf]; rfl
  have hP : lostBytes s.log \ (bytesOf .acked s.log ∪ Set.Ico o (o + n)) =
      (lostBytes s.log \ bytesOf .acked s.log) \ Set.Ico o (o + n) := by rw [sdiff_sdiff_left]; rfl
  unfold SentStream.onStreamFrameAcked note
  simp only [hb, hfin, Bool.not_true, Bool.false_eq_true, if_false]
  exact {
    h with
    hist := h.hist.report rfl
    holds := hP ▸ hholds
    sent := h.sent.trans (congrArg Set.Iio hw.symm)
    finOutstanding := by
      change (s.finOutstanding && !fin) = (s.finSent && !(fin || finOf .acked s.log))
      rw [h.finOutstanding]
      cases fin <;> simp
    finLost := by
      change (s.finLost && !fin) = (finLostIn s.log && !(fin || finOf .acked s.log))
      rw [h.finLost]
      cases fin <;> simp
    finAcked := fun ha => (Bool.or_eq_true_iff.1 ha).elim hs.2 h.finAcked }

theorem Tracks.onStreamFrameRetransmitted (h : Tracks R old s) (o n : Nat) (fin : Bool) :
    Tracks R old ((s.note .retransmitted o n fin).onStreamFrameRetransmitted o n fin) := by
  have hb := h.holds.onStreamDataRetransmitted o n
  have hw := s.sendBuffer.streamBytesWritten_onStreamDataRetransmitted o n
  have hP : (lostBytes s.log \ Set.Ico o (o + n)) \ bytesOf .acked s.log =
      (lostBytes s.log \ bytesOf .acked s.log) \ Set.Ico o (o + n) := sdiff_right_comm _ _ _
  exact {
    h with
    hist := h.hist.cons rfl
    holds := hP ▸ hb
    sent := h.sent.trans (congrArg Set.Iio hw.symm)
    finLost := by
      change (s.finLost && !fin) = ((finLostIn s.log && !fin) && !finOf .acked s.log)
      rw [h.finLost, Bool.and_right_comm] }

theorem Tracks.onStreamFrameLost (h : Tracks R old s) {o n : Nat} {fin : Bool} (hs : s.Sendable o n fin) :
    Tracks (⟨.lost, o, n, fin⟩ :: R) old ((s.note .lost o n fin).onStreamFrameLost o n fin) := by
  have hlost : (if 0 < n then s.sendBuffer.onStreamDataLost o n else s.sendBuffer) =
    s.sendBuffer.onStreamDataLost o n := by
    split
    · rfl
    next hn => rw [onStreamDataLost, if_pos (Nat.eq_zero_of_not_pos hn)]
  have hb := h.holds.onStreamDataLost o n
  have hw := s.sendBuffer.streamBytesWritten_onStreamDataLost o n
  rw [← union_sdiff_distrib] at hb
  unfold SentStream.onStreamFrameLost note
  rw [hlost]
  exact {
    h with
    hist := h.hist.report rfl
    holds := hb
    sent := h.sent.trans (congrArg Set.Iio hw.symm)
    finLost := by
      change (s.finLost || fin && s.finOutstanding) = ((finLostIn s.log || fin) && !finOf .acked s.log)
      rw [h.finLost, h.finOutstanding]
      cases hf : fin with
      | false => simp
      | true =>
        rw [hs.2 hf]
        cases finOf .acked s.log <;> simp }

/-! ## Sending again -/

theorem Tracks.retransmitIntervals (answers : Nat → QuicConsumedData) :
    ∀ (l : QuicIntervalSet Nat) (k : Nat) (fin : Bool)
    {s : SentStream}, Tracks R old s →
    Tracks R old (retransmitIntervals answers k l fin s).2 ∧
      (retransmitIntervals answers k l fin s).2.finSent = s.finSent ∧
      ∀ k', (retransmitIntervals answers k l fin s).1 = some (true, k') → fin = true
  | [], k, fin, s, h => by
    refine ⟨h, rfl, fun k' hk => ?_⟩
    cases hk
    rfl
  | i :: rest, k, fin, s, h => by
    unfold SentStream.retransmitIntervals
    dsimp only
    generalize StreamFrame.taken _ _ = c
    have ht := h.onStreamFrameRetransmitted i.min c.bytesConsumed c.finConsumed
    split
    · exact ⟨ht, rfl, nofun⟩
    next hb =>
      obtain ⟨h1, h2, h3⟩ := Tracks.retransmitIntervals answers rest (k + 1)
        (if (fin && i.min + (i.max - i.min) == s.streamBytesWritten) = true then !c.finConsumed else fin) ht
      refine ⟨h1, h2, fun k' hk => ?_⟩
      have h4 := h3 k' hk
      cases fin with
      | true => rfl
      | false => exact h4

theorem Tracks.noteFin (h : Tracks R old s) (hs : s.finSent = true) (o : Nat) (fin : Bool) :
    Tracks R old (s.note .sent o 0 fin) :=
  { h with
    hist := h.hist.cons rfl
    sent := (congrArg (bytesOf .sent s.log ∪ ·) (Set.Ico_self o)).trans ((union_empty _).trans h.sent)
    finSent := (congrArg (fin || ·) (h.finSent.trans hs)).trans ((Bool.or_true fin).trans hs.symm) }

theorem Tracks.retransmitStreamData (h : Tracks R old s) (answers : Nat → QuicConsumedData) (o n : Nat)
    (fin passed : Bool) :
    Tracks R old (s.retransmitStreamData answers o n fin passed).2 := by
  unfold SentStream.retransmitStreamData
  split
  · exact h.reset false
  dsimp only
  split
  · exact h
  obtain ⟨h1, h2, h3⟩ := Tracks.retransmitIntervals answers
    ((QuicIntervalSet.add [] ⟨o, o + n⟩).difference s.sendBuffer.bytesAcked) 0 (fin && s.finOutstanding) h
  split
  · exact h1
  next k hk =>
    -- The FIN is only sent again while it is outstanding, so it has been sent.
    have hout : s.finOutstanding = true := (Bool.and_eq_true_iff.1 (h3 k hk)).2
    rw [h.finOutstanding, Bool.and_eq_true] at hout
    have hnote := h1.noteFin (h2.trans hout.1)
    simpa [retransmitFinOnly, writevData, StreamFrame.taken] using hnote _ _
  · exact h1

theorem Tracks.onPendingWritten (h : Tracks R old s) (hp : s.hasPendingRetransmission = true) (d : QuicConsumedData) :
    Tracks R old ((s.writevData .retransmitted s.pendingOffer (s.pendingOffer.taken d)).onPendingWritten s.pendingOffer
      (s.pendingOffer.taken d)) := by
  unfold SentStream.onPendingWritten
  split
  · exact h.onStreamFrameRetransmitted _ _ _
  next hb =>
    -- Only the FIN is left, which is the same as if a frame without data was sent again.
    have hlost : s.finLost = true := by
      rw [hasPendingRetransmission, Bool.or_eq_true] at hp
      exact hp.resolve_left hb
    have hlen : (s.pendingOffer.taken d).bytesConsumed = 0 := by
      have hb : ¬s.sendBuffer.hasPendingRetransmission = true := hb
      simp [pendingOffer, hb, StreamFrame.taken]
    have ht := h.onStreamFrameRetransmitted s.pendingOffer.offset 0 (s.pendingOffer.taken d).finConsumed
    rw [writevData, hlen]
    simpa [SentStream.onStreamFrameRetransmitted, onStreamDataRetransmitted, note, hlost] using ht

theorem Tracks.writePending (answers : Nat → QuicConsumedData) : ∀ (turns k : Nat) {s : SentStream}, Tracks R old s →
    Tracks R old (writePending answers turns k s).stream
  | 0, _, _, h => h
  | turns + 1, k, s, h => by
    unfold SentStream.writePending
    split
    next hp =>
      have ht := h.onPendingWritten hp (answers k)
      dsimp only
      split
      · exact ht
      · exact Tracks.writePending answers turns (k + 1) ht
    · exact h

theorem Tracks.onCanWrite (h : Tracks R old s) (answers : Nat → QuicConsumedData) (passed yield : Bool)
    (sendWindow : Nat)
    (d : QuicConsumedData) : Tracks R old (s.onCanWrite answers passed yield sendWindow d) := by
  unfold SentStream.onCanWrite
  split
  · exact h.reset false
  split
  · exact Tracks.writePending answers _ 0 h
  split
  · exact h
  next hopen =>
    split
    · exact h.writeBufferedData (Bool.eq_false_of_not_eq_true hopen) yield sendWindow d
    · exact h

variable {enabled : Bool} {m threshold : Nat}

theorem Tracks.step (hm : 0 < m) {e : Ev} {s' : SentStream} (h : Tracks R old s)
    (hs : step enabled m threshold s e = some s') : Tracks (e.report.toList ++ R) old s' := by
  cases e with
  | writeOrBufferData data fin yield window d =>
    cases hs
    exact h.writeOrBufferData hm data fin yield window d
  | writeMemSlices span fin unconditionally yield window d =>
    cases hs
    exact h.writeMemSlices threshold span fin unconditionally yield window d
  | onCanWrite passed yield window d answers =>
    cases hs
    exact h.onCanWrite answers passed yield window d
  | onStreamFrameAcked o n fin probes =>
    obtain ⟨hg, ⟨⟩⟩ := Option.ite_none_right_eq_some.1 hs
    exact h.onStreamFrameAcked enabled hg probes
  | onStreamFrameLost o n fin =>
    obtain ⟨hg, ⟨⟩⟩ := Option.ite_none_right_eq_some.1 hs
    exact h.onStreamFrameLost hg
  | onStreamFrameRetransmitted o n fin =>
    cases hs
    exact h.onStreamFrameRetransmitted o n fin
  | retransmitStreamData o n fin passed answers =>
    cases hs
    exact h.retransmitStreamData answers o n fin passed
  | writePendingRetransmission answers =>
    cases hs
    exact Tracks.writePending answers _ 0 h
  | reset errorOk =>
    cases hs
    exact h.reset errorOk

theorem reports_cons (e : Ev) (es : List Ev) : reports (e :: es) = reports es ++ e.report.toList := by
  rw [reports, filterMap_cons]
  cases e.report <;> simp [reports]

theorem Tracks.run (hm : 0 < m) : ∀ {es : List Ev} {R : List Note} {s s' : SentStream}, Tracks R old s →
    Lts.run (SentStream.step enabled m threshold) s es = some s' → Tracks (reports es ++ R) old s'
  | [], R, s, s', h, hr => by
    cases hr
    exact h
  | e :: es, R, s, s', h, hr => by
    obtain ⟨t, ht, hr⟩ := Lts.run_cons.1 hr
    rw [reports_cons, append_assoc]
    exact (h.step hm ht).run hm hr

theorem tracks_run (hm : 0 < m) {es : List Ev} {s : SentStream}
    (hr : Lts.run (step enabled m threshold) {} es = some s) : Tracks (reports es) [] s :=
  append_nil (reports es) ▸ tracks_fresh.run hm hr

/-! ## What `WritePendingRetransmission()` sends -/

theorem Tracks.hasPendingRetransmission_iff (h : Tracks R old s) :
    s.hasPendingRetransmission = true ↔ (∃ p, p ∈ lostBytes s.log ∧ p ∉ bytesOf .acked s.log) ∨
      (finLostIn s.log = true ∧ finOf .acked s.log = false) := by
  have hb : s.sendBuffer.hasPendingRetransmission = true ↔ ∃ p, p ∈ lostBytes s.log ∧ p ∉ bytesOf .acked s.log := by
    have hne : s.sendBuffer.pendingRetransmissions = [] ↔ points s.sendBuffer.pendingRetransmissions = ∅ :=
      ⟨fun h0 => h0 ▸ points_nil, fun h0 => h.holds.canonicalPending.ext canonical_nil (h0.trans points_nil.symm)⟩
    rw [QuicStreamSendBufferInlining.hasPendingRetransmission, Bool.not_eq_true', isEmpty_eq_false_iff, Ne, hne,
      h.holds.pending, ← Ne, ← nonempty_iff_ne_empty]
    rfl
  rw [hasPendingRetransmission, Bool.or_eq_true, hb, h.finLost, Bool.and_eq_true, Bool.not_eq_true']

variable {i : QuicInterval Nat} {rest : QuicIntervalSet Nat}

theorem pendingOffer_cons (hi : s.sendBuffer.pendingRetransmissions = i :: rest) :
    s.pendingOffer = ⟨i.min, i.max - i.min, s.finLost && i.min + (i.max - i.min) == s.streamBytesWritten⟩ := by
  simp [pendingOffer, QuicStreamSendBufferInlining.hasPendingRetransmission,
    QuicStreamSendBufferInlining.nextPendingRetransmission, hi]

theorem pendingOffer_nil (hi : s.sendBuffer.pendingRetransmissions = []) :
    s.pendingOffer = ⟨s.streamBytesWritten, 0, true⟩ := by
  simp [pendingOffer, QuicStreamSendBufferInlining.hasPendingRetransmission, hi]

theorem finLost_of_nil (hi : s.sendBuffer.pendingRetransmissions = []) (hp : s.hasPendingRetransmission = true) :
    s.finLost = true := by
  simpa [hasPendingRetransmission, QuicStreamSendBufferInlining.hasPendingRetransmission, hi] using hp

theorem Tracks.pendingOffer_lost (h : Tracks R old s) (hp : s.hasPendingRetransmission = true) :
    (∀ p, s.pendingOffer.offset ≤ p → p < s.pendingOffer.stop → p ∈ points s.sendBuffer.pendingRetransmissions) ∧
    (s.pendingOffer.fin = true → s.pendingOffer.stop = s.streamBytesWritten ∧ s.finLost = true) := by
  cases hi : s.sendBuffer.pendingRetransmissions with
  | nil =>
    rw [pendingOffer_nil hi]
    exact ⟨fun p h1 h2 => absurd h1 (not_le.2 h2), fun _ => ⟨rfl, finLost_of_nil hi hp⟩⟩
  | cons i rest =>
    have hlt := h.holds.canonicalPending.nonempty i (hi ▸ mem_cons_self)
    simp only [pendingOffer_cons hi, StreamFrame.stop, Bool.and_eq_true, beq_iff_eq]
    exact ⟨fun p h1 h2 => mem_points_cons.2 (.inl ⟨h1, by omega⟩), And.symm⟩

theorem Tracks.onPendingWritten_le (h : Tracks R old s) (hp : s.hasPendingRetransmission = true) (f : StreamFrame)
    (c : QuicConsumedData) {t : SentStream} (ht : (s.writevData .retransmitted f c).onPendingWritten f c = t) :
    points t.sendBuffer.pendingRetransmissions ⊆ points s.sendBuffer.pendingRetransmissions ∧
    (t.finLost = true → s.finLost = true) ∧ t.streamBytesWritten = s.streamBytesWritten := by
  subst ht
  unfold SentStream.onPendingWritten writevData note
  split
  · have hr := h.holds.onStreamDataRetransmitted f.offset c.bytesConsumed
    refine ⟨?_, fun hl => (Bool.and_eq_true_iff.1 hl).1,
      s.sendBuffer.streamBytesWritten_onStreamDataRetransmitted f.offset c.bytesConsumed⟩
    simp only [SentStream.onStreamFrameRetransmitted, hr.pending, h.holds.pending]
    exact sdiff_subset
  next hb =>
    rw [hasPendingRetransmission, Bool.or_eq_true] at hp
    exact ⟨Set.Subset.rfl, fun _ => hp.resolve_left hb, rfl⟩

def pendingWork (s : SentStream) : Nat := s.sendBuffer.pendingRetransmissions.length + s.finLost.toNat

theorem differenceInterval_head (hc : Canonical (i :: rest)) :
    differenceInterval (i :: rest) ⟨i.min, i.min + (i.max - i.min)⟩ = rest := by
  obtain ⟨hlt, hapart, hrest⟩ := canonical_cons.1 hc
  obtain ⟨hdc, hdp⟩ := differenceInterval_spec hc ⟨i.min, i.min + (i.max - i.min)⟩
  apply hdc.ext hrest
  rw [hdp]
  ext p
  simp only [mem_sdiff, mem_points_cons, mem_Ico]
  have hp : p ∈ points rest → i.max < p := lt_of_mem_points hapart
  grind

theorem Tracks.pendingWork_lt (h : Tracks R old s) (hp : s.hasPendingRetransmission = true) {d : QuicConsumedData}
    (hall : ¬ ((s.pendingOffer.taken d).bytesConsumed < s.pendingOffer.length ∨
      (s.pendingOffer.fin = true ∧ (s.pendingOffer.taken d).finConsumed = false))) :
    ((s.writevData .retransmitted s.pendingOffer (s.pendingOffer.taken d)).onPendingWritten s.pendingOffer
      (s.pendingOffer.taken d)).pendingWork < s.pendingWork := by
  rw [not_or, not_and] at hall
  have hbytes : (s.pendingOffer.taken d).bytesConsumed = s.pendingOffer.length :=
    le_antisymm (min_le_right _ _) (Nat.le_of_not_lt hall.1)
  unfold SentStream.onPendingWritten writevData note
  rw [hbytes]
  generalize (s.pendingOffer.taken d).finConsumed = fin at hall
  cases hi : s.sendBuffer.pendingRetransmissions with
  | nil =>
    -- The FIN went alone.
    rw [pendingOffer_nil hi] at hall ⊢
    obtain rfl : fin = true := Bool.eq_true_of_not_eq_false (hall.2 rfl)
    simp [pendingWork, QuicStreamSendBufferInlining.hasPendingRetransmission, hi, finLost_of_nil hi hp]
  | cons i rest =>
    -- The first interval went as a whole.
    have hc := h.holds.canonicalPending
    rw [hi] at hc
    have hlen : i.max - i.min ≠ 0 := Nat.sub_ne_zero_of_lt (canonical_cons.1 hc).1
    have hb : s.sendBuffer.hasPendingRetransmission = true := by
      simp [QuicStreamSendBufferInlining.hasPendingRetransmission, hi]
    rw [pendingOffer_cons hi, if_pos hb]
    simp only [pendingWork, SentStream.onStreamFrameRetransmitted,
      QuicStreamSendBufferInlining.onStreamDataRetransmitted, hi,
      if_neg hlen, differenceInterval_head hc, length_cons]
    cases s.finLost <;> cases fin <;> simp

theorem Tracks.finished (answers : Nat → QuicConsumedData) : ∀ {turns : Nat} (k : Nat) {s : SentStream},
    Tracks R old s →
    s.pendingWork < turns → (SentStream.writePending answers turns k s).finished = true
  | 0, _, _, _, hw => absurd hw (Nat.not_lt_zero _)
  | turns + 1, k, s, h, hw => by
    unfold SentStream.writePending
    split
    next hp =>
      dsimp only
      split
      · rfl
      next hall =>
        have hlt := h.pendingWork_lt hp hall
        exact Tracks.finished answers (k + 1) (h.onPendingWritten hp (answers k)) (by omega)
    · rfl

theorem Tracks.offers (answers : Nat → QuicConsumedData) : ∀ {turns : Nat} (k : Nat) {s : SentStream}, Tracks R old s →
    ∀ f ∈ (SentStream.writePending answers turns k s).offers,
      (∀ p, f.offset ≤ p → p < f.stop → p ∈ points s.sendBuffer.pendingRetransmissions) ∧
      (f.fin = true → f.stop = s.streamBytesWritten ∧ s.finLost = true)
  | 0, _, _, _, f, hf => by cases hf
  | turns + 1, k, s, h, f, hf => by
    unfold SentStream.writePending at hf
    split at hf
    next hp =>
      have hfirst := h.pendingOffer_lost hp
      dsimp only at hf
      split at hf
      · rw [mem_singleton.1 hf]
        exact hfirst
      · rcases mem_cons.1 hf with rfl | hf
        · exact hfirst
        · obtain ⟨h1, h2⟩ := Tracks.offers answers (k + 1) (h.onPendingWritten hp (answers k)) f hf
          obtain ⟨hsub, hfin, hw⟩ := h.onPendingWritten_le hp s.pendingOffer (s.pendingOffer.taken (answers k)) rfl
          exact ⟨fun p hlo hhi => hsub (h1 p hlo hhi), fun hff => ⟨(h2 hff).1.trans hw, hfin (h2 hff).2⟩⟩
    · cases hf

/-! ## Waiting -/

theorem Tracks.streamBytesOutstanding_iff (h : Tracks R old s) :
    s.sendBuffer.streamBytesOutstanding ≠ 0 ↔ ∃ p, p ∈ bytesOf .sent s.log ∧ p ∉ bytesOf .acked s.log := by
  have hsum := h.holds.outstanding
  have hsub : bytesOf .acked s.log ⊆ Set.Iio s.streamBytesWritten := h.holds.acked_lt
  have hcard : (Set.Iio s.streamBytesWritten).ncard = s.streamBytesWritten := by
    rw [← Finset.coe_Iio, ncard_coe_finset, Nat.card_Iio]
  rw [h.sent]
  refine ⟨fun hne => ?_, fun ⟨p, hp, hpa⟩ => ?_⟩
  · by_contra hall
    push Not at hall
    have heq : bytesOf .acked s.log = Set.Iio s.streamBytesWritten := Set.Subset.antisymm hsub hall
    rw [heq, hcard, streamBytesWritten] at hsum
    omega
  · have hlt := ncard_lt_ncard ⟨hsub, fun hsup => hpa (hsup hp)⟩ (finite_Iio s.streamBytesWritten)
    rw [hcard, streamBytesWritten] at hlt
    omega

theorem Tracks.isWaitingForAcks_iff (h : Tracks R old s) (hr : s.rstSent = false) :
    s.isWaitingForAcks = true ↔ (∃ p, p ∈ bytesOf .sent s.log ∧ p ∉ bytesOf .acked s.log) ∨
      (finOf .sent s.log = true ∧ finOf .acked s.log = false) := by
  rw [← h.streamBytesOutstanding_iff, isWaitingForAcks, hr, h.finOutstanding, h.finSent]
  simp

/-- **Sent data and FIN are tracked until acknowledged.** -/
theorem retransmission_contract {enabled : Bool} {m threshold : Nat} (hm : 0 < m) {es : List Ev} {s : SentStream}
    (hr : Lts.run (step enabled m threshold) {} es = some s) :
    (∀ p, p ∈ bytesOf .sent s.log → p ∉ bytesOf .acked (reports es) → latest s.log p = some .lost →
      s.hasPendingRetransmission = true) ∧
    (finOf .sent s.log = true → finOf .acked (reports es) = false → latestFin s.log = some .lost →
      s.hasPendingRetransmission = true) ∧
    (∀ answers, (s.writePendingRetransmission answers).finished = true ∧
      ∀ f ∈ (s.writePendingRetransmission answers).offers,
        (∀ p, f.offset ≤ p → p < f.stop → p ∈ lostBytes s.log ∧ p ∉ bytesOf .acked (reports es)) ∧
        (f.fin = true → f.stop = s.streamBytesWritten ∧ finLostIn s.log = true ∧ finOf .acked (reports es) = false)) ∧
    bytesOf .sent s.log = Set.Iio s.streamBytesWritten ∧ finOf .sent s.log = s.finSent ∧
    (s.rstSent = false → (s.isWaitingForAcks = true ↔
      (∃ p, p ∈ bytesOf .sent s.log ∧ p ∉ bytesOf .acked (reports es)) ∨
      (finOf .sent s.log = true ∧ finOf .acked (reports es) = false))) ∧
    -- the log has every acknowledgement and loss in its place
    ∀ es₁ es₂, es = es₁ ++ es₂ → ∃ s₁, Lts.run (step enabled m threshold) {} es₁ = some s₁ ∧ s₁.log <:+ s.log ∧
      s₁.log.filter Note.isReport = reports es₁ := by
  have h := tracks_run hm hr
  rw [← h.hist.reported, bytesOf_reports, finOf_reports]
  refine ⟨fun p _ hp hl => ?_, fun _ hf hl => ?_, fun answers => ⟨?_, fun f hf => ?_⟩, h.sent, h.finSent,
    h.isWaitingForAcks_iff, ?_⟩
  · exact h.hasPendingRetransmission_iff.2 (.inl ⟨p, mem_lostBytes_of_latest hl, hp⟩)
  · exact h.hasPendingRetransmission_iff.2 (.inr ⟨finLostIn_of_latest hl, hf⟩)
  · have hwork : s.pendingWork < s.sendBuffer.pendingRetransmissions.length + 2 := by
      have := s.finLost.toNat_le
      unfold pendingWork
      omega
    exact Tracks.finished answers 0 h hwork
  · obtain ⟨h1, h2⟩ := Tracks.offers answers 0 h f hf
    rw [h.holds.pending] at h1
    refine ⟨h1, fun hff => ?_⟩
    obtain ⟨hstop, hlost⟩ := h2 hff
    rw [h.finLost, Bool.and_eq_true, Bool.not_eq_true'] at hlost
    exact ⟨hstop, hlost⟩
  · rintro es₁ es₂ rfl
    obtain ⟨s₁, hr1, hr2⟩ := Lts.run_append.1 hr
    have h1 := tracks_run hm hr1
    have h2 : Tracks (reports es₁) s₁.log s₁ := { h1 with hist := ⟨suffix_refl _, h1.hist.reported⟩ }
    exact ⟨s₁, hr1, (h2.run hm hr2).hist.grows, h1.hist.reported⟩

/-- The FIN travels alone, is lost, and is due again although all the data has been acknowledged. -/
theorem retransmission_contract_finOnly : ∃ s : SentStream,
    Lts.run (step true 4096 65536) {} [.writeOrBufferData [1, 2, 3] true false 10 ⟨3, false⟩,
      .onCanWrite false false 10 ⟨0, true⟩ fun _ => ⟨0, false⟩, .onStreamFrameLost 3 0 true,
      .onStreamFrameAcked 0 3 false []] = some s ∧
    s.hasPendingRetransmission = true ∧ s.isWaitingForAcks = true ∧
    (s.writePendingRetransmission fun _ => ⟨0, true⟩).offers = [⟨3, 0, true⟩] ∧
    (s.writePendingRetransmission fun _ => ⟨0, true⟩).stream.hasPendingRetransmission = false ∧
    (s.writePendingRetransmission fun _ => ⟨0, true⟩).finished = true := by
  have hr : Lts.run (step true 4096 65536) {} [.writeOrBufferData [1, 2, 3] true false 10 ⟨3, false⟩,
      .onCanWrite false false 10 ⟨0, true⟩ fun _ => ⟨0, false⟩, .onStreamFrameLost 3 0 true,
      .onStreamFrameAcked 0 3 false []] = some _ := rfl
  obtain ⟨-, hfin, hwrite, -, -, hwait, -⟩ := retransmission_contract (by decide) hr
  exact ⟨_, hr, hfin rfl rfl rfl, (hwait rfl).2 (.inr ⟨rfl, rfl⟩), rfl, rfl, (hwrite _).1⟩

end SentStream

end Quictun
