import Quictun.ReceiveStream
import Quictun.Run

/-!
# Final sizes

What the frames of one stream say about its final size, and what `QuicStream` and
`QuicStreamSequencer` make of it. A FIN that the sequencer sees sets `close_offset_`, against
which everything later is checked. A RESET_STREAM is checked against it but does not set it,
is not compared with the data received, and closes the read side, behind which a FIN is not
looked at any more.
-/

namespace Quictun

open Option List Except

inductive SizeFrame
  | stream (offset len : Nat) (fin : Bool)
  | rst (byteOffset : Nat)
deriving DecidableEq

namespace SizeFrame

def finish : SizeFrame → Nat
  | stream offset len _ => offset + len
  | rst byteOffset => byteOffset

def isFinal : SizeFrame → Bool
  | stream _ _ fin => fin
  | rst _ => true

def counts : SizeFrame → Bool
  | stream _ len fin => 0 < len || fin
  | rst _ => true

end SizeFrame

def Contradictory (fs : List SizeFrame) : Prop :=
  ∃ f ∈ fs, f.isFinal = true ∧ ∃ g ∈ fs, g.counts = true ∧ f.finish < g.finish

def Consistent (fs : List SizeFrame) : Prop :=
  ∃ size, ∀ f ∈ fs, f.finish ≤ size ∧ (f.isFinal = true → f.finish = size)

def QuicErrorCode.isFinalSize : QuicErrorCode → Bool
  | .streamDataBeyondCloseOffset | .streamSequencerInvalidState | .streamMultipleOffset |
    .flowControlFinalSizeChanged =>
    true
  | _ => false

/-! ## A stream and its frames -/

structure SizedStream where
  receiver : Receiver
  frames : List SizeFrame := []
  error : Option QuicErrorCode := none

namespace SizedStream

inductive Ev
  | frame (f : SizeFrame)
  | read (n : Nat)
  | stopReading
  | reset
  | closeWriteSide
  /-- Other streams move the flow controller of the session. -/
  | session (f : QuicFlowController)

def receive (v : Receiver) : SizeFrame → Except QuicErrorCode Receiver
  | .stream offset len fin => v.onStreamFrame offset len fin
  | .rst byteOffset => v.onStreamReset byteOffset

def step (s : SizedStream) (e : Ev) : Option SizedStream :=
  if s.error.isSome || s.receiver.stream.closed then none
  else
    match e with
    | .frame f =>
      match receive s.receiver f with
      | .ok v => some { s with receiver := v, frames := f :: s.frames }
      | .error e => some { s with frames := f :: s.frames, error := some e }
    | .read n => some { s with receiver := s.receiver.read n }
    | .stopReading => some { s with receiver := s.receiver.stopReading }
    | .reset => some { s with receiver := s.receiver.reset }
    | .closeWriteSide => some { s with receiver := s.receiver.closeWriteSide }
    | .session f => some { s with receiver := { s.receiver with session := f } }

def init (streamWindow : Nat) (session : QuicFlowController) : SizedStream where
  receiver := {
    stream := { flowController := { receiveWindowOffset := streamWindow, receiveWindowSize := streamWindow } }
    session }

/-- The frame comes where it is checked: a STREAM frame while the read side is open, or after a FIN and with none but
that one; a RESET_STREAM after a FIN, while the read side is open and not below the data received, or once more. -/
def Checked (s : SizedStream) : Ev → Prop
  | .frame (.stream offset len fin) => s.receiver.stream.readSideClosed = false ∨
      (s.receiver.stream.sequencer.closeOffset.isSome = true ∧
        (fin = true → s.receiver.stream.sequencer.closeOffset = some (offset + len)))
  | .frame (.rst byteOffset) => s.receiver.stream.sequencer.closeOffset.isSome = true ∨
      (s.receiver.stream.readSideClosed = false ∧ s.receiver.stream.sequencer.highestOffset ≤ byteOffset) ∨
      .rst byteOffset ∈ s.frames
  | _ => True

instance (s : SizedStream) (e : Ev) : Decidable (Checked s e) := by
  unfold Checked
  split <;> infer_instance

end SizedStream

namespace Receiver

/-! ## What moves the close offset and the highest offset -/

/-- Nothing about the final size is learned, and the read side does not open again. -/
structure KeepsSize (v v' : Receiver) : Prop where
  closeOffset : v'.stream.sequencer.closeOffset = v.stream.sequencer.closeOffset
  highestOffset : v'.stream.sequencer.highestOffset = v.stream.sequencer.highestOffset
  readSide : v.stream.readSideClosed = true → v'.stream.readSideClosed = true

theorem KeepsSize.refl (v : Receiver) : KeepsSize v v := ⟨rfl, rfl, id⟩

theorem KeepsSize.trans {u v w : Receiver} (h : KeepsSize u v) (h' : KeepsSize v w) : KeepsSize u w :=
  ⟨h'.closeOffset.trans h.closeOffset, h'.highestOffset.trans h.highestOffset, fun hr => h'.readSide (h.readSide hr)⟩

section
variable (v : Receiver)

theorem keepsSize_addBytesConsumed (n : Nat) : KeepsSize v (v.addBytesConsumed n) := by
  unfold addBytesConsumed
  split <;> exact ⟨rfl, rfl, id⟩

theorem keepsSize_maybeIncrease (n : Nat) : KeepsSize v (v.maybeIncreaseHighestReceivedOffset n) := by
  unfold maybeIncreaseHighestReceivedOffset
  split
  · exact KeepsSize.refl v
  · exact ⟨rfl, rfl, id⟩

theorem keepsSize_onClose : KeepsSize v v.onStreamClosed.onClose := by
  have h : KeepsSize v v.onStreamClosed := by
    unfold onStreamClosed
    split
    · exact KeepsSize.refl v
    · exact ⟨rfl, rfl, id⟩
  refine h.trans ?_
  unfold onClose
  split
  · exact KeepsSize.refl _
  · exact keepsSize_addBytesConsumed _ _

theorem keepsSize_closeReadSide : KeepsSize v v.closeReadSide := by
  have h : KeepsSize v v.releaseRead := ⟨rfl, rfl, fun _ => rfl⟩
  unfold closeReadSide
  split
  · exact KeepsSize.refl v
  split
  · exact h.trans (keepsSize_onClose _)
  · exact h

theorem keepsSize_closeWriteSide : KeepsSize v v.closeWriteSide := by
  have h : KeepsSize v v.releaseWrite := ⟨rfl, rfl, id⟩
  unfold closeWriteSide
  split
  · exact KeepsSize.refl v
  split
  · exact h.trans (keepsSize_onClose _)
  · exact h

theorem keepsSize_reset : KeepsSize v v.reset := (keepsSize_closeReadSide v).trans (keepsSize_closeWriteSide _)

theorem keepsSize_onFinRead : KeepsSize v v.onFinRead := by
  have h : KeepsSize v { v with stream := { v.stream with finReceived := true } } := ⟨rfl, rfl, id⟩
  exact h.trans (keepsSize_closeReadSide _)

theorem keepsSize_maybeCloseStream : KeepsSize v v.maybeCloseStream := by
  have hclear (w : Receiver) : KeepsSize w w.clear := ⟨rfl, rfl, id⟩
  unfold maybeCloseStream
  split
  · split
    · exact (keepsSize_onFinRead v).trans (hclear _)
    · exact hclear v
  · exact KeepsSize.refl v

theorem keepsSize_flushBufferedFrames : KeepsSize v v.flushBufferedFrames := by
  unfold flushBufferedFrames
  have h : KeepsSize v (v.setSequencer
      { v.stream.sequencer with totalBytesRead := v.stream.sequencer.bytesReceived.sup }.clear) := ⟨rfl, rfl, id⟩
  exact (h.trans (keepsSize_addBytesConsumed _ _)).trans (keepsSize_maybeCloseStream _)

theorem keepsSize_stopReading : KeepsSize v v.stopReading := by
  have h : KeepsSize v (v.setSequencer { v.stream.sequencer with ignoreReadData := true }) := ⟨rfl, rfl, id⟩
  unfold stopReading
  split
  · exact KeepsSize.refl v
  · exact h.trans (keepsSize_flushBufferedFrames _)

theorem keepsSize_read (n : Nat) : KeepsSize v (v.read n) := by
  have h : KeepsSize v (v.setSequencer { v.stream.sequencer with
      totalBytesRead := v.stream.sequencer.totalBytesRead + min n v.stream.sequencer.readableBytes }) := ⟨rfl, rfl, id⟩
  have h' := h.trans (keepsSize_addBytesConsumed _ (min n v.stream.sequencer.readableBytes))
  unfold read
  simp only
  split
  · exact h'.trans (keepsSize_onFinRead _)
  · exact h'

end

/-! ## What a frame teaches -/

section
variable {v v' : Receiver}

theorem readSideClosed_closeReadSide (v : Receiver) : v.closeReadSide.stream.readSideClosed = true := by
  unfold closeReadSide
  split
  next h => exact h
  split
  · exact (keepsSize_onClose v.releaseRead).readSide rfl
  · rfl

variable {len offset : Nat}

theorem size_onFrameData (h : v.onFrameData offset len = .ok v') :
    v'.stream.sequencer.closeOffset = v.stream.sequencer.closeOffset ∧
      v'.stream.sequencer.highestOffset = max v.stream.sequencer.highestOffset (offset + len) := by
  unfold onFrameData at h
  simp only at h
  split at h
  · cases h
  · cases h
    exact ⟨rfl, rfl⟩
  · split at h
    · cases h
      have hk := keepsSize_flushBufferedFrames
      exact ⟨(hk _).closeOffset, (hk _).highestOffset⟩
    · cases h
      exact ⟨rfl, rfl⟩

variable {e : QuicErrorCode}

theorem error_onFrameData (h : v.onFrameData offset len = .error e) : e.isFinalSize = false := by
  have hdata : ∀ {q : QuicStreamSequencer}, q.onStreamData offset len = .error e → e.isFinalSize = false := by
    intro q hq
    unfold QuicStreamSequencer.onStreamData at hq
    split at hq
    · obtain rfl := error.inj hq
      rfl
    split at hq
    · cases hq
    split at hq
    · obtain rfl := error.inj hq
      rfl
    · cases hq
  unfold onFrameData at h
  simp only at h
  split at h
  next e' he =>
    obtain rfl := error.inj h
    exact hdata he
  · cases h
  · split at h <;> cases h

theorem size_closeStreamAtOffset (h : v.closeStreamAtOffset offset = .ok v') :
    (∀ c ∈ v.stream.sequencer.closeOffset, c = offset) ∧ v.stream.sequencer.highestOffset ≤ offset ∧
      v'.stream.sequencer.closeOffset = some offset ∧
      v'.stream.sequencer.highestOffset = v.stream.sequencer.highestOffset := by
  unfold closeStreamAtOffset at h
  by_cases hc : v.stream.sequencer.closeOffset.any (· ≠ offset) = true
  · rw [if_pos hc] at h
    cases h
  by_cases hh : offset < v.stream.sequencer.highestOffset
  · rw [if_neg hc, if_pos hh] at h
    cases h
  · rw [if_neg hc, if_neg hh] at h
    cases h
    have hk := keepsSize_maybeCloseStream
      (v.setSequencer { v.stream.sequencer with closeOffset := some offset })
    refine ⟨?_, Nat.le_of_not_lt hh, hk.closeOffset, hk.highestOffset⟩
    intro c hcv
    rw [mem_def.1 hcv] at hc
    simpa using hc

theorem error_closeStreamAtOffset (h : v.closeStreamAtOffset offset = .error e) :
    (∃ c ∈ v.stream.sequencer.closeOffset, c ≠ offset) ∨ offset < v.stream.sequencer.highestOffset := by
  unfold closeStreamAtOffset at h
  by_cases hc : v.stream.sequencer.closeOffset.any (· ≠ offset) = true
  · left
    obtain ⟨c, hcv, hne⟩ := (Option.any_eq_true _ _).1 hc
    exact ⟨c, hcv, of_decide_eq_true hne⟩
  by_cases hh : offset < v.stream.sequencer.highestOffset
  · exact .inr hh
  · rw [if_neg hc, if_neg hh] at h
    cases h

variable {fin : Bool}

theorem size_sequence (h : v.sequence offset len fin = .ok v') :
    (fin = true → (∀ c ∈ v.stream.sequencer.closeOffset, c = offset + len) ∧
      v.stream.sequencer.highestOffset ≤ offset + len) ∧
    v'.stream.sequencer.closeOffset = (if fin then some (offset + len) else v.stream.sequencer.closeOffset) ∧
    v'.stream.sequencer.highestOffset =
      (if 0 < len then max v.stream.sequencer.highestOffset (offset + len) else v.stream.sequencer.highestOffset) := by
  unfold sequence at h
  cases fin with
  | true =>
    simp only [if_true, true_implies] at h ⊢
    split at h
    · cases h
    next v₁ hv1 =>
      obtain ⟨h1, h2, h3, h4⟩ := size_closeStreamAtOffset hv1
      split at h
      · cases h
        rw [if_neg (by omega)]
        exact ⟨⟨h1, h2⟩, h3, h4⟩
      next h0 =>
        obtain ⟨h5, h6⟩ := size_onFrameData h
        rw [if_pos (Nat.pos_of_ne_zero h0)]
        exact ⟨⟨h1, h2⟩, h5.trans h3, by rw [h6, h4]⟩
  | false =>
    simp only [Bool.false_eq_true, if_false, false_implies, true_and] at h ⊢
    split at h
    · cases h
      rw [if_neg (by omega)]
      exact ⟨rfl, rfl⟩
    next h0 =>
      obtain ⟨h5, h6⟩ := size_onFrameData h
      rw [if_pos (Nat.pos_of_ne_zero h0)]
      exact ⟨h5, h6⟩

theorem error_sequence (h : v.sequence offset len fin = .error e) (he : e.isFinalSize = true) :
    fin = true ∧ ((∃ c ∈ v.stream.sequencer.closeOffset, c ≠ offset + len) ∨
      offset + len < v.stream.sequencer.highestOffset) := by
  have hdata {w : Receiver} (hw : w.onFrameData offset len = .error e) : False := by
    rw [error_onFrameData hw] at he
    cases he
  unfold sequence at h
  cases fin with
  | true =>
    simp only [if_true] at h
    refine ⟨rfl, ?_⟩
    split at h
    next hv1 => exact error_closeStreamAtOffset hv1
    · split at h
      · cases h
      · exact (hdata h).elim
  | false =>
    simp only [Bool.false_eq_true, if_false] at h
    split at h
    · cases h
    · exact (hdata h).elim

section
variable (v : Receiver)

def counted (offset len : Nat) (fin : Bool) : Receiver :=
  if 0 < len then (v.setFinReceived fin).maybeIncreaseHighestReceivedOffset (offset + len) else v.setFinReceived fin

theorem keepsSize_setFinReceived (fin : Bool) : KeepsSize v (v.setFinReceived fin) := ⟨rfl, rfl, id⟩

theorem keepsSize_counted (offset len : Nat) (fin : Bool) : KeepsSize v (v.counted offset len fin) := by
  unfold counted
  split
  · exact (keepsSize_setFinReceived v fin).trans (keepsSize_maybeIncrease _ _)
  · exact keepsSize_setFinReceived v fin

theorem onStreamFrame_eq (offset len : Nat) (fin : Bool) : v.onStreamFrame offset len fin =
    if kMaxStreamLength < offset + len then .error .streamLengthOverflow
    else if v.stream.sequencer.beyondCloseOffset (offset + len) then .error .streamDataBeyondCloseOffset
    else if v.stream.readSideClosed then .ok (v.setFinReceived fin)
    else if (v.setFinReceived fin).highest < (v.counted offset len fin).highest &&
        (v.counted offset len fin).flowControlViolation then .error .flowControlReceivedTooMuchData
    else (v.counted offset len fin).sequence offset len fin := rfl

end

theorem onStreamFrame_ok (h : v.onStreamFrame offset len fin = .ok v') :
    (∀ c ∈ v.stream.sequencer.closeOffset, offset + len ≤ c) ∧
      (v.stream.readSideClosed = true ∧ v' = v.setFinReceived fin ∨
        v.stream.readSideClosed = false ∧ (v.counted offset len fin).sequence offset len fin = .ok v') := by
  rw [onStreamFrame_eq] at h
  split at h
  · cases h
  split at h
  · cases h
  next hb =>
  refine ⟨?_, ?_⟩
  · intro c hc
    rw [QuicStreamSequencer.beyondCloseOffset, mem_def.1 hc] at hb
    simpa using hb
  · split at h
    next hr =>
      exact .inl ⟨hr, (ok.inj h).symm⟩
    next hr =>
      split at h
      · cases h
      · exact .inr ⟨Bool.eq_false_iff.2 hr, h⟩

theorem onStreamFrame_error (h : v.onStreamFrame offset len fin = .error e) (he : e.isFinalSize = true) :
    (∃ c ∈ v.stream.sequencer.closeOffset, c < offset + len) ∨
      fin = true ∧ ((∃ c ∈ v.stream.sequencer.closeOffset, c ≠ offset + len) ∨
        offset + len < v.stream.sequencer.highestOffset) := by
  rw [onStreamFrame_eq] at h
  split at h
  · obtain rfl := error.inj h
    cases he
  by_cases hb : v.stream.sequencer.beyondCloseOffset (offset + len) = true
  · left
    obtain ⟨c, hcv, hlt⟩ := (Option.any_eq_true _ _).1 hb
    exact ⟨c, hcv, of_decide_eq_true hlt⟩
  rw [if_neg hb] at h
  split at h
  · cases h
  split at h
  · obtain rfl := error.inj h
    cases he
  · right
    have hk := keepsSize_counted v offset len fin
    obtain ⟨hf, hor⟩ := error_sequence h he
    rw [hk.closeOffset, hk.highestOffset] at hor
    exact ⟨hf, hor⟩

variable {n : Nat}

theorem onStreamReset_ok (h : v.onStreamReset n = .ok v') :
    (∀ c ∈ v.stream.sequencer.closeOffset, c = n) ∧ KeepsSize v v' ∧ v'.stream.readSideClosed = true := by
  unfold onStreamReset at h
  split at h
  · cases h
  split at h
  · cases h
  next hc =>
  simp only at h
  split at h
  · cases h
  · cases h
    have hr : KeepsSize v { v with stream := { v.stream with rstReceived := true } } := ⟨rfl, rfl, id⟩
    refine ⟨?_, (hr.trans (keepsSize_maybeIncrease _ n)).trans (keepsSize_closeReadSide _),
      readSideClosed_closeReadSide _⟩
    intro c hcv
    rw [mem_def.1 hcv] at hc
    simpa using hc

theorem onStreamReset_error (h : v.onStreamReset n = .error e) (he : e.isFinalSize = true) :
    ∃ c ∈ v.stream.sequencer.closeOffset, c ≠ n := by
  unfold onStreamReset at h
  split at h
  · obtain rfl := error.inj h
    cases he
  by_cases hc : v.stream.sequencer.closeOffset.any (· ≠ n) = true
  · obtain ⟨c, hcv, hne⟩ := (Option.any_eq_true _ _).1 hc
    exact ⟨c, hcv, of_decide_eq_true hne⟩
  rw [if_neg hc] at h
  simp only at h
  split at h
  · obtain rfl := error.inj h
    cases he
  · cases h

end

end Receiver

open Receiver

namespace SizedStream

def Ev.received : Ev → Option SizeFrame
  | .frame f => some f
  | _ => none

inductive Stepped (s : SizedStream) : Ev → SizedStream → Prop
  | frame {f : SizeFrame} {v : Receiver} (h : receive s.receiver f = .ok v) :
    Stepped s (.frame f) { s with receiver := v, frames := f :: s.frames }
  | error {f : SizeFrame} {err : QuicErrorCode} (h : receive s.receiver f = .error err) :
    Stepped s (.frame f) { s with frames := f :: s.frames, error := some err }
  | quiet {e : Ev} {v : Receiver} (he : e.received = none) (h : s.receiver.KeepsSize v) :
    Stepped s e { s with receiver := v }

theorem stepped {s s' : SizedStream} {e : Ev} (hs : s.step e = some s') : s.error = none ∧ Stepped s e s' := by
  obtain ⟨hopen, hs⟩ := ite_none_left_eq_some.1 hs
  rw [Bool.or_eq_true, not_or] at hopen
  refine ⟨by simpa using hopen.1, ?_⟩
  cases e with
  | frame f =>
    simp only at hs
    split at hs
    next hr => cases hs; exact .frame hr
    next hr => cases hs; exact .error hr
  | read n => cases hs; exact .quiet rfl (keepsSize_read _ n)
  | stopReading => cases hs; exact .quiet rfl (keepsSize_stopReading _)
  | reset => cases hs; exact .quiet rfl (keepsSize_reset _)
  | closeWriteSide => cases hs; exact .quiet rfl (keepsSize_closeWriteSide _)
  | session f => cases hs; exact .quiet rfl ⟨rfl, rfl, id⟩

theorem step_frames {s s' : SizedStream} {e : Ev} (hs : s.step e = some s') :
    s'.frames = e.received.toList ++ s.frames := by
  cases (stepped hs).2 with
  | frame | error => rfl
  | quiet he => rw [he]; rfl

/-! ## Errors only for contradictions -/

structure Noted (v : Receiver) (fs : List SizeFrame) : Prop where
  closeOffset : ∀ c ∈ v.stream.sequencer.closeOffset, ∃ f ∈ fs, f.isFinal = true ∧ f.finish = c
  highestOffset : v.stream.sequencer.highestOffset = 0 ∨ ∃ f ∈ fs, f.finish = v.stream.sequencer.highestOffset

variable {v v' : Receiver} {fs : List SizeFrame}

theorem Noted.keeps (h : Noted v fs) (hk : v.KeepsSize v') : Noted v' fs := by
  refine ⟨?_, ?_⟩
  · rw [hk.closeOffset]
    exact h.closeOffset
  · rw [hk.highestOffset]
    exact h.highestOffset

theorem Noted.cons (h : Noted v fs) (f : SizeFrame) : Noted v (f :: fs) := by
  refine ⟨?_, ?_⟩
  · intro c hc
    obtain ⟨g, hg, hgc⟩ := h.closeOffset c hc
    exact ⟨g, mem_cons_of_mem f hg, hgc⟩
  · refine h.highestOffset.imp_right ?_
    rintro ⟨g, hg, hgc⟩
    exact ⟨g, mem_cons_of_mem f hg, hgc⟩

variable {len offset : Nat} {fin : Bool}

theorem Noted.sequence (h : Noted v fs) (hs : v.sequence offset len fin = .ok v') :
    Noted v' (.stream offset len fin :: fs) := by
  obtain ⟨-, hc, hh⟩ := size_sequence hs
  have hn := h.cons (.stream offset len fin)
  refine ⟨?_, ?_⟩
  · rw [hc]
    intro c hcm
    cases fin with
    | true =>
      cases hcm
      exact ⟨_, mem_cons_self, rfl, rfl⟩
    | false => exact hn.closeOffset c hcm
  · rw [hh]
    split
    · rcases Nat.le_total v.stream.sequencer.highestOffset (offset + len) with hle | hle
      · right
        rw [max_eq_right hle]
        exact ⟨_, mem_cons_self, rfl⟩
      · rw [max_eq_left hle]
        exact hn.highestOffset
    · exact hn.highestOffset

variable {f : SizeFrame}

theorem Noted.receive (h : Noted v fs) (hr : receive v f = .ok v') : Noted v' (f :: fs) := by
  cases f with
  | stream offset len fin =>
    rcases (onStreamFrame_ok hr).2 with ⟨-, rfl⟩ | ⟨-, hs⟩
    · exact (h.keeps (keepsSize_setFinReceived v fin)).cons _
    · exact (h.keeps (keepsSize_counted v offset len fin)).sequence hs
  | rst n => exact (h.keeps (onStreamReset_ok hr).2.1).cons _

theorem Noted.receive_error {e : QuicErrorCode} (h : Noted v fs)
    (hr : SizedStream.receive v f = .error e) (he : e.isFinalSize = true) : ¬Consistent (f :: fs) := by
  rintro ⟨size, hsize⟩
  obtain ⟨hf, hff⟩ := hsize f mem_cons_self
  have hclose : ∀ c ∈ v.stream.sequencer.closeOffset, c = size := by
    intro c hc
    obtain ⟨g, hg, hgf, rfl⟩ := h.closeOffset c hc
    exact (hsize g (mem_cons_of_mem f hg)).2 hgf
  have hhigh : v.stream.sequencer.highestOffset ≤ size := by
    rcases h.highestOffset with h0 | ⟨g, hg, hgh⟩
    · omega
    · rw [← hgh]
      exact (hsize g (mem_cons_of_mem f hg)).1
  cases f with
  | stream offset len fin =>
    simp only [SizeFrame.finish, SizeFrame.isFinal] at hf hff
    rcases onStreamFrame_error hr he with ⟨c, hc, hlt⟩ | ⟨hfin, ⟨c, hc, hne⟩ | hlt⟩
    · have := hclose c hc
      omega
    · have := hclose c hc
      have := hff hfin
      omega
    · have := hff hfin
      omega
  | rst n =>
    obtain ⟨c, hc, hne⟩ := onStreamReset_error hr he
    exact hne ((hclose c hc).trans (hff rfl).symm)

structure NotedInv (s : SizedStream) : Prop where
  noted : Noted s.receiver s.frames ∨ s.error.isSome = true
  error : ∀ e ∈ s.error, e.isFinalSize = true → ¬Consistent s.frames

variable {s s' : SizedStream} {e : Ev}

theorem NotedInv.step (h : NotedInv s) (hs : s.step e = some s') : NotedInv s' := by
  obtain ⟨herr, hs⟩ := stepped hs
  have hn : Noted s.receiver s.frames := h.noted.resolve_right (by simp [herr])
  cases hs with
  | frame hr => exact ⟨.inl (hn.receive hr), by simp [herr]⟩
  | error hr =>
    refine ⟨.inr rfl, fun e' he' => ?_⟩
    cases he'
    exact hn.receive_error hr
  | quiet _ hk => exact ⟨.inl (hn.keeps hk), h.error⟩

/-! ## Contradictions found -/

def Within (c : Nat) (fs : List SizeFrame) : Prop :=
  ∀ f ∈ fs, (f.counts = true → f.finish ≤ c) ∧ (f.isFinal = true → f.finish = c)

variable {c : Nat}

theorem Within.not_contradictory (h : Within c fs) : ¬Contradictory fs := by
  rintro ⟨f, hf, hfin, g, hg, hcounts, hlt⟩
  have h1 := (h f hf).2 hfin
  have h2 := (h g hg).1 hcounts
  omega

theorem Within.cons (h : Within c fs)
    (hf : (f.counts = true → f.finish ≤ c) ∧ (f.isFinal = true → f.finish = c)) : Within c (f :: fs) := by
  exact forall_mem_cons.2 ⟨hf, h⟩

def Unfinished (n : Nat) (fs : List SizeFrame) : Prop :=
  ∀ f ∈ fs, f.isFinal = false ∧ (f.counts = true → f.finish ≤ n)

theorem Unfinished.within {n c : Nat} (h : Unfinished n fs) (hn : n ≤ c) : Within c fs := by
  intro f hf
  obtain ⟨h1, h2⟩ := h f hf
  refine ⟨fun hc => le_trans (h2 hc) hn, ?_⟩
  intro hfin
  rw [h1] at hfin
  cases hfin

/-- What the receiver knows about the frames: the close offset, the end of the data, or
nothing any more behind a closed read side. -/
inductive Knows (v : Receiver) (fs : List SizeFrame) : Prop
  | closeOffset (c : Nat) (hc : v.stream.sequencer.closeOffset = some c) (h : Within c fs)
  | unfinished (hc : v.stream.sequencer.closeOffset = none) (h : Unfinished v.stream.sequencer.highestOffset fs)
  | blind (hc : v.stream.sequencer.closeOffset = none) (hr : v.stream.readSideClosed = true) (h : ¬Contradictory fs)

theorem Knows.not_contradictory {v : Receiver} {fs : List SizeFrame} (h : Knows v fs) : ¬Contradictory fs := by
  cases h with
  | closeOffset c hc h => exact h.not_contradictory
  | unfinished hc h => exact (h.within le_rfl).not_contradictory
  | blind hc hr h => exact h

theorem Knows.keeps (h : Knows v fs) (hk : v.KeepsSize v') : Knows v' fs := by
  cases h with
  | closeOffset c hc h => exact .closeOffset c (hk.closeOffset.trans hc) h
  | unfinished hc h => exact .unfinished (hk.closeOffset.trans hc) (hk.highestOffset ▸ h)
  | blind hc hr h => exact .blind (hk.closeOffset.trans hc) (hk.readSide hr) h

theorem Knows.sequence (h : Knows v fs)
    (hopen : v.stream.readSideClosed = false) (hle : ∀ c ∈ v.stream.sequencer.closeOffset, offset + len ≤ c)
    (hs : v.sequence offset len fin = .ok v') : Knows v' (.stream offset len fin :: fs) := by
  obtain ⟨hfin, hc', hh'⟩ := size_sequence hs
  cases h with
  | blind hc hr h =>
    rw [hopen] at hr
    cases hr
  | closeOffset c hc h =>
    have hend := hle c hc
    have hsame : fin = true → offset + len = c := fun hf => ((hfin hf).1 c hc).symm
    refine .closeOffset c ?_ (h.cons ⟨fun _ => hend, hsame⟩)
    cases fin with
    | true => rw [hc', if_pos rfl, hsame rfl]
    | false => rw [hc', if_neg Bool.false_ne_true, hc]
  | unfinished hc h =>
    cases fin with
    | true =>
      have hhigh := (hfin rfl).2
      refine .closeOffset (offset + len) (by rw [hc', if_pos rfl]) ?_
      exact (h.within hhigh).cons ⟨fun _ => le_rfl, fun _ => rfl⟩
    | false =>
      refine .unfinished (by rw [hc', if_neg Bool.false_ne_true, hc]) ?_
      rw [hh']
      intro f hf
      rcases mem_cons.1 hf with rfl | hf
      · refine ⟨rfl, ?_⟩
        intro hcounts
        have h0 : 0 < len := by simpa [SizeFrame.counts] using hcounts
        rw [if_pos h0]
        exact le_max_right _ _
      · refine ⟨(h f hf).1, ?_⟩
        intro hcounts
        refine le_trans ((h f hf).2 hcounts) ?_
        split
        · exact le_max_left _ _
        · exact le_rfl

theorem Knows.receive (h : Knows s.receiver s.frames)
    (hc : Checked s (.frame f)) (hr : SizedStream.receive s.receiver f = .ok v') : Knows v' (f :: s.frames) := by
  cases f with
  | stream offset len fin =>
    obtain ⟨hle, hor⟩ := onStreamFrame_ok hr
    rcases hor with ⟨hclosed, rfl⟩ | ⟨hread, hs⟩
    · -- behind a closed read side: the close offset is known and a FIN is the one that set it
      have hc := hc.resolve_left (by simp [hclosed])
      obtain ⟨c, hcv⟩ := isSome_iff_exists.1 hc.1
      have hk := h.keeps (keepsSize_setFinReceived s.receiver fin)
      have hcv' : (s.receiver.setFinReceived fin).stream.sequencer.closeOffset = some c := hcv
      cases hk with
      | closeOffset c' hc' hw =>
        obtain rfl : c = c' := some.inj (hcv'.symm.trans hc')
        exact .closeOffset c hc' (hw.cons ⟨fun _ => hle c hcv, fun hfin => some.inj ((hc.2 hfin).symm.trans hcv)⟩)
      | unfinished hc' | blind hc' => cases hcv'.symm.trans hc'
    · have hk := keepsSize_counted s.receiver offset len fin
      have hopen : (s.receiver.counted offset len fin).stream.readSideClosed = false := by
        rw [← hread]
        unfold counted maybeIncreaseHighestReceivedOffset
        split
        · split <;> rfl
        · rfl
      refine (h.keeps hk).sequence hopen ?_ hs
      rw [hk.closeOffset]
      exact hle
  | rst n =>
    obtain ⟨heq, hk, hr'⟩ := onStreamReset_ok hr
    cases h with
    | closeOffset c hcv hw =>
      have hcn := heq c hcv
      exact .closeOffset c (hk.closeOffset.trans hcv) (hw.cons ⟨fun _ => hcn.ge, fun _ => hcn.symm⟩)
    | unfinished hcv hu =>
      have hc : s.receiver.stream.sequencer.highestOffset ≤ n := by
        rcases hc with hc | hc | hc
        · rw [hcv] at hc
          cases hc
        · exact hc.2
        · cases (hu _ hc).1
      have hw : Within n (.rst n :: s.frames) := (hu.within hc).cons ⟨fun _ => le_refl n, fun _ => rfl⟩
      exact .blind (hk.closeOffset.trans hcv) hr' hw.not_contradictory
    | blind hcv hr hn =>
      rcases hc with hc | hc | hc
      · rw [hcv] at hc
        cases hc
      · rw [hr] at hc
        cases hc.1
      -- the same frame once more
      · refine .blind (hk.closeOffset.trans hcv) hr' fun ⟨f, hf, hfin, g, hg, hlt⟩ => hn ⟨f, ?_, hfin, g, ?_, hlt⟩
        · exact (mem_cons.1 hf).elim (· ▸ hc) id
        · exact (mem_cons.1 hg).elim (· ▸ hc) id

theorem knows_step (h : s.error = none → Knows s.receiver s.frames) (hc : Checked s e)
    (hs : s.step e = some s') : s'.error = none → Knows s'.receiver s'.frames := by
  intro hnone
  obtain ⟨herr, hs⟩ := stepped hs
  cases hs with
  | frame hr => exact (h herr).receive hc hr
  | error => cases hnone
  | quiet _ hk => exact (h herr).keeps hk

/-! ## Runs -/

/-- **Final sizes.** An error about the final size is reported only for frames that no final size fits. If every frame
comes where it is checked, a connection that is still open has seen no contradiction. -/
theorem final_size_enforced {streamWindow : Nat} {session : QuicFlowController} {es : List Ev} {s : SizedStream}
    (hr : Lts.run step (init streamWindow session) es = some s) :
    s.frames = (es.filterMap Ev.received).reverse ∧
    (Lts.AllSteps step Checked (init streamWindow session) es → s.error = none → ¬Contradictory s.frames) ∧
      ∀ e ∈ s.error, e.isFinalSize = true → ¬Consistent s.frames := by
  refine ⟨Lts.run_log (fun _ _ _ => step_frames) rfl hr, ?_, ?_⟩
  · intro hc hnone
    have h0 : (init streamWindow session).error = none →
        Knows (init streamWindow session).receiver (init streamWindow session).frames :=
      fun _ => .unfinished rfl fun f hf => absurd hf List.not_mem_nil
    have h := Lts.run_inv_of (I := fun s => s.error = none → Knows s.receiver s.frames)
      (fun _ _ _ hi hp hs => knows_step hi hp hs) h0 hc hr
    exact (h hnone).not_contradictory
  · have h0 : NotedInv (init streamWindow session) := by
      refine ⟨.inl ⟨fun c hc => ?_, .inl rfl⟩, fun e he => ?_⟩
      · cases hc
      · cases he
    exact (Lts.run_inv (fun _ _ _ hi hs => NotedInv.step hi hs) h0 hr).error

def oneWindow : QuicFlowController := { receiveWindowOffset := 100, receiveWindowSize := 100 }

def repeated : List Ev :=
  [.frame (.stream 5 5 false), .frame (.stream 20 0 true), .frame (.stream 0 5 false), .read 10,
    .frame (.stream 15 5 true),
    .frame (.rst 20), .frame (.stream 10 10 true), .frame (.rst 20)]

def beyondFin : List Ev := repeated ++ [.frame (.stream 12 9 false)]

theorem final_size_enforced_beyondFin :
    (∃ s, Lts.run step (init 50 oneWindow) repeated = some s ∧ s.error = none ∧ ¬Contradictory s.frames) ∧
    ∃ s, Lts.run step (init 50 oneWindow) beyondFin = some s ∧ s.error = some .streamDataBeyondCloseOffset ∧
      ¬Consistent s.frames := by
  refine ⟨⟨_, rfl, rfl, ?_⟩, ⟨_, rfl, rfl, ?_⟩⟩
  · exact (@final_size_enforced 50 oneWindow repeated _ rfl).2.1 (Lts.allSteps_of_check (by decide +kernel)) rfl
  · exact (@final_size_enforced 50 oneWindow beyondFin _ rfl).2.2 _ rfl rfl

def resetBelow : List Ev := [.frame (.stream 0 20 false), .frame (.rst 10)]
def resetTwice : List Ev := [.frame (.rst 10), .frame (.rst 20), .frame (.stream 20 10 true)]

theorem reset_unchecked : (∃ s, Lts.run step (init 50 oneWindow) resetBelow = some s ∧ s.error = none ∧
      Contradictory s.frames) ∧
    ∃ s, Lts.run step (init 50 oneWindow) resetTwice = some s ∧ s.error = none ∧ Contradictory s.frames := by
  refine ⟨⟨_, rfl, rfl, ?_⟩, ⟨_, rfl, rfl, ?_⟩⟩
  · exact ⟨.rst 10, by decide, rfl, .stream 0 20 false, by decide, rfl, by decide⟩
  · exact ⟨.rst 10, by decide, rfl, .rst 20, by decide, rfl, by decide⟩

end SizedStream

end Quictun
