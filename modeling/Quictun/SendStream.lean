import Mathlib.Data.Nat.Basic
import Mathlib.Order.MinMax

/-!
# The sending half of a stream

`QuicStream` as a sender: how much it has buffered and sent, and what `WriteBufferedData()`
offers to the connection under the two flow-control windows. What the connection takes of
an offer (`QuicConsumedData`) and whether the stream yields to another one are arguments;
whether it asks to be put on the write-blocked list, and the frame sent, are results.
-/

namespace Quictun

structure SendFlowController where
  bytesSent : Nat := 0
  sendWindowOffset : Nat
deriving DecidableEq

namespace SendFlowController

section
variable (f : SendFlowController)

def sendWindowSize : Nat := f.sendWindowOffset - f.bytesSent

def isBlocked : Bool := f.sendWindowSize == 0

/-- Beyond the window the code also closes the connection; `WriteBufferedData()` stays within it. -/
def addBytesSent (bytes : Nat) : SendFlowController :=
  if f.sendWindowOffset < f.bytesSent + bytes then { f with bytesSent := f.sendWindowOffset }
  else { f with bytesSent := f.bytesSent + bytes }

def updateSendWindowOffset (newOffset : Nat) : SendFlowController × Bool :=
  if newOffset ≤ f.sendWindowOffset then (f, false) else ({ f with sendWindowOffset := newOffset }, f.isBlocked)

theorem updateSendWindowOffset_eq (n : Nat) :
    (f.updateSendWindowOffset n).1 = { f with sendWindowOffset := max f.sendWindowOffset n } := by
  unfold updateSendWindowOffset
  split
  next h => rw [max_eq_left h]
  next h => rw [max_eq_right (Nat.le_of_not_le h)]

end

variable {f : SendFlowController}

theorem isBlocked_iff : f.isBlocked = true ↔ f.sendWindowSize = 0 := beq_iff_eq

theorem addBytesSent_of_le {n : Nat} (h : n ≤ f.sendWindowSize) (h0 : f.bytesSent ≤ f.sendWindowOffset) :
    f.addBytesSent n = { f with bytesSent := f.bytesSent + n } := by
  unfold sendWindowSize at h
  rw [addBytesSent, if_neg (by omega)]

theorem sendWindowSize_addBytesSent (f : SendFlowController) (n : Nat) :
    (f.addBytesSent n).sendWindowSize = f.sendWindowSize - n := by
  unfold addBytesSent sendWindowSize
  split
  · simp only
    omega
  · simp only
    omega

end SendFlowController

structure QuicConsumedData where
  bytesConsumed : Nat
  finConsumed : Bool
deriving DecidableEq

structure StreamFrame where
  offset : Nat
  length : Nat
  fin : Bool
deriving DecidableEq

structure SendStream where
  streamBytesWritten : Nat := 0
  /-- `send_buffer_.stream_offset()` is that much further. -/
  bufferedDataBytes : Nat := 0
  finBuffered : Bool := false
  finSent : Bool := false
  writeSideClosed : Bool := false
  flowController : SendFlowController
deriving DecidableEq

/-- What a write leaves: the stream, the connection's flow controller, whether the stream was
marked write-blocked, and the frame that was sent. -/
structure WriteResult where
  stream : SendStream
  connection : SendFlowController
  marked : Bool := false
  frame : Option StreamFrame := none
deriving DecidableEq

namespace SendStream

section
variable (s : SendStream)

def streamOffset : Nat := s.streamBytesWritten + s.bufferedDataBytes

def hasBufferedData : Bool := 0 < s.bufferedDataBytes

variable (c : SendFlowController)

def maybeSendBlocked : Bool :=
  !s.writeSideClosed && c.isBlocked && !s.flowController.isBlocked

def finWithZeroData : Bool := s.finBuffered && s.bufferedDataBytes == 0

def calculateSendWindowSize : Nat :=
  min s.flowController.sendWindowSize c.sendWindowSize

def onStreamDataConsumed (n : Nat) : SendStream :=
  { s with
    streamBytesWritten := s.streamBytesWritten + n
    bufferedDataBytes := s.bufferedDataBytes - n
    flowController := s.flowController.addBytesSent n }

def writeLength : Nat := min s.bufferedDataBytes (s.calculateSendWindowSize c)

def offersFin : Bool :=
  s.finBuffered && s.bufferedDataBytes ≤ s.calculateSendWindowSize c

def consumed (n : Nat) (finConsumed : Bool) : WriteResult :=
  let s₁ := s.onStreamDataConsumed n
  let c₁ := c.addBytesSent n
  let frame := if 0 < n then some ⟨s.streamBytesWritten, n, false⟩ else none
  if n = s.writeLength c then
    let blocked := !s.finWithZeroData && s₁.maybeSendBlocked c₁
    if s.offersFin c && finConsumed then
      { stream := { s₁ with finSent := true, writeSideClosed := true }, connection := c₁, marked := blocked,
        frame := some ⟨s.streamBytesWritten, n, true⟩ }
    else { stream := s₁, connection := c₁, marked := blocked || s.offersFin c, frame := frame }
  else { stream := s₁, connection := c₁, marked := true, frame := frame }

def writeBufferedData (yield : Bool) (d : QuicConsumedData) : WriteResult :=
  if yield then { stream := s, connection := c, marked := true }
  else if s.calculateSendWindowSize c = 0 ∧ s.finWithZeroData = false then
    { stream := s, connection := c, marked := s.maybeSendBlocked c }
  else s.consumed c (min d.bytesConsumed (s.writeLength c)) d.finConsumed

def save (length : Nat) (fin : Bool) : SendStream :=
  { s with bufferedDataBytes := s.bufferedDataBytes + length, finBuffered := fin }

def writeOrBufferData (length : Nat) (fin yield : Bool) (d : QuicConsumedData) :
    WriteResult :=
  if (length = 0 ∧ fin = false) ∨ s.finBuffered = true ∨ s.writeSideClosed = true then { stream := s, connection := c }
  else if s.hasBufferedData then { stream := s.save length fin, connection := c }
  else (s.save length fin).writeBufferedData c yield d

def onCanWrite (yield : Bool) (d : QuicConsumedData) : WriteResult :=
  if s.writeSideClosed then { stream := s, connection := c }
  else if s.hasBufferedData || (s.finBuffered && !s.finSent) then s.writeBufferedData c yield d
  else { stream := s, connection := c }

/-! ## Nothing is left behind -/

def Pending : Prop :=
  s.writeSideClosed = false ∧ (s.hasBufferedData = true ∨ (s.finBuffered = true ∧ s.finSent = false))

instance (s : SendStream) : Decidable s.Pending := inferInstanceAs (Decidable (_ ∧ _))

def Excused : Prop := s.hasBufferedData = true ∧ s.flowController.isBlocked = true

end

def Tracked (r : WriteResult) : Prop := r.stream.Pending → r.marked = true ∨ r.stream.Excused

variable {s : SendStream}

theorem hasBufferedData_iff : s.hasBufferedData = true ↔ 0 < s.bufferedDataBytes := decide_eq_true_iff

variable {c : SendFlowController}

theorem marked_or_blocked (hopen : s.writeSideClosed = false)
    (h0 : s.calculateSendWindowSize c = 0) : s.maybeSendBlocked c = true ∨ s.flowController.isBlocked = true := by
  by_cases hs : s.flowController.isBlocked = true
  · exact .inr hs
  · have hc : c.isBlocked = true := by
      have hs' := mt SendFlowController.isBlocked_iff.2 hs
      apply SendFlowController.isBlocked_iff.2
      unfold calculateSendWindowSize at h0
      omega
    left
    simp [maybeSendBlocked, hopen, hc, hs]

theorem tracked_consumed (hopen : s.writeSideClosed = false) (n : Nat)
    (finConsumed : Bool) : Tracked (s.consumed c n finConsumed) := by
  unfold consumed
  simp only
  split
  next hn =>
    split
    · rintro ⟨hclosed, -⟩
      cases hclosed
    next =>
    by_cases hle : s.bufferedDataBytes ≤ s.calculateSendWindowSize c
    · -- everything was offered and taken: only a FIN can be left
      rintro ⟨-, hdata | ⟨hfb, -⟩⟩
      · exfalso
        have hrest := hasBufferedData_iff.1 hdata
        simp only [onStreamDataConsumed, hn, writeLength] at hrest
        omega
      · left
        have hfb' : s.finBuffered = true := hfb
        have hoffers : s.offersFin c = true := by simp [offersFin, hle, hfb']
        simp [hoffers]
    · -- the rest does not fit: one of the windows is used up now
      intro _
      have hzero : (s.onStreamDataConsumed n).calculateSendWindowSize (c.addBytesSent n) = 0 := by
        simp only [calculateSendWindowSize, onStreamDataConsumed, SendFlowController.sendWindowSize_addBytesSent, hn,
          writeLength] at hle ⊢
        omega
      have hz : s.finWithZeroData = false := by
        have : s.bufferedDataBytes ≠ 0 := by omega
        simp [finWithZeroData, this]
      have hopen' : (s.onStreamDataConsumed n).writeSideClosed = false := hopen
      rcases marked_or_blocked hopen' hzero with hm | hb
      · left
        simp [hz, hm]
      · right
        refine ⟨?_, hb⟩
        rw [hasBufferedData_iff]
        simp only [onStreamDataConsumed, hn, writeLength]
        omega
  · exact fun _ => .inl rfl

theorem tracked_writeBufferedData (hopen : s.writeSideClosed = false) (yield : Bool)
    (d : QuicConsumedData) : Tracked (s.writeBufferedData c yield d) := by
  unfold writeBufferedData
  split
  · exact fun _ => .inl rfl
  next =>
  split
  next h0 =>
    rintro ⟨-, hp⟩
    have hdata : s.hasBufferedData = true := by
      rw [hasBufferedData_iff]
      rcases hp with hd | ⟨hf, -⟩
      · exact hasBufferedData_iff.1 hd
      · have hz := h0.2
        rw [finWithZeroData, hf, Bool.true_and, beq_eq_false_iff_ne] at hz
        exact Nat.pos_of_ne_zero hz
    exact (marked_or_blocked hopen h0.1).imp_right fun hb => ⟨hdata, hb⟩
  · exact tracked_consumed hopen _ _

theorem tracked_onCanWrite (s : SendStream) (c : SendFlowController) (yield : Bool) (d : QuicConsumedData) :
    Tracked (s.onCanWrite c yield d) := by
  unfold onCanWrite
  split
  next hw =>
    rintro ⟨hopen, -⟩
    rw [hw] at hopen
    cases hopen
  next hw =>
  split
  · exact tracked_writeBufferedData (Bool.eq_false_iff.2 hw) yield d
  next hp =>
    rintro ⟨-, hpend⟩
    exact absurd (by simpa using hpend) hp

theorem tracked_writeOrBufferData {listed : Prop}
    (h : s.Pending → listed ∨ s.Excused) (length : Nat) (fin yield : Bool) (d : QuicConsumedData) :
    (s.writeOrBufferData c length fin yield d).stream.Pending →
      (listed ∨ (s.writeOrBufferData c length fin yield d).marked = true) ∨
        (s.writeOrBufferData c length fin yield d).stream.Excused := by
  unfold writeOrBufferData
  split
  · intro hp
    exact (h hp).imp_left .inl
  next hrefuse =>
  simp only [not_or, Bool.not_eq_true] at hrefuse
  split
  next hb =>
    intro _
    rcases h ⟨hrefuse.2.2, .inl hb⟩ with hl | he
    · exact .inl (.inl hl)
    · refine .inr ⟨?_, he.2⟩
      rw [hasBufferedData_iff] at hb ⊢
      simp only [save]
      omega
  · intro hp
    have hopen : (s.save length fin).writeSideClosed = false := hrefuse.2.2
    exact (tracked_writeBufferedData hopen yield d hp).imp_left .inr

/-! ## What is sent -/

structure Sends (s : SendStream) (c : SendFlowController) (r : WriteResult) (n : Nat) : Prop where
  written : r.stream.streamBytesWritten = s.streamBytesWritten + n
  flowController : r.stream.flowController = { s.flowController with bytesSent := s.flowController.bytesSent + n }
  connection : r.connection = { c with bytesSent := c.bytesSent + n }
  le_stream : n ≤ s.flowController.sendWindowSize
  le_connection : n ≤ c.sendWindowSize
  stopped : s.writeSideClosed = true → r.stream.writeSideClosed = true ∧ n = 0
  finished : r.stream.finSent = true → s.finSent = true ∨ r.stream.writeSideClosed = true
  frame : ∀ f ∈ r.frame, f.offset + f.length = r.stream.streamBytesWritten ∧
    (f.fin = true → r.stream.writeSideClosed = true)

theorem sends_nothing {r : WriteResult}
    (hw : r.stream.streamBytesWritten = s.streamBytesWritten) (hf : r.stream.flowController = s.flowController)
    (hc : r.stream.writeSideClosed = s.writeSideClosed) (hfin : r.stream.finSent = s.finSent)
    (hrc : r.connection = c) (hrf : r.frame = none) : Sends s c r 0 := by
  refine ⟨hw, hf, hrc, Nat.zero_le _, Nat.zero_le _, fun h => ⟨hc.trans h, rfl⟩, fun h => .inl (hfin.symm.trans h), ?_⟩
  simp [hrf]

section
variable {s : SendStream} {c : SendFlowController} (hs : s.flowController.bytesSent ≤ s.flowController.sendWindowOffset)
  (hc : c.bytesSent ≤ c.sendWindowOffset)
include hs hc

theorem sends_consumed (hopen : s.writeSideClosed = false) {n : Nat} (hn : n ≤ s.writeLength c) (finConsumed : Bool) :
    Sends s c (s.consumed c n finConsumed) n := by
  have h1 : n ≤ s.flowController.sendWindowSize := by
    unfold writeLength calculateSendWindowSize at hn
    omega
  have h2 : n ≤ c.sendWindowSize := by
    unfold writeLength calculateSendWindowSize at hn
    omega
  have hst := SendFlowController.addBytesSent_of_le h1 hs
  have hco := SendFlowController.addBytesSent_of_le h2 hc
  have hstop : ∀ {p : Prop}, s.writeSideClosed = true → p := fun h => by cases hopen.symm.trans h
  unfold consumed
  dsimp only
  split
  · split
    · refine ⟨rfl, hst, hco, h1, h2, hstop, fun _ => .inr rfl, ?_⟩
      simp [onStreamDataConsumed]
    · refine ⟨rfl, hst, hco, h1, h2, hstop, fun h => .inl h, ?_⟩
      simp [onStreamDataConsumed]
  · refine ⟨rfl, hst, hco, h1, h2, hstop, fun h => .inl h, ?_⟩
    simp [onStreamDataConsumed]

theorem sends_writeBufferedData (hopen : s.writeSideClosed = false) (yield : Bool) (d : QuicConsumedData) :
    ∃ n, Sends s c (s.writeBufferedData c yield d) n := by
  unfold writeBufferedData
  split
  · exact ⟨0, sends_nothing rfl rfl rfl rfl rfl rfl⟩
  split
  · exact ⟨0, sends_nothing rfl rfl rfl rfl rfl rfl⟩
  · exact ⟨_, sends_consumed hs hc hopen (min_le_right _ _) _⟩

theorem sends_onCanWrite (yield : Bool) (d : QuicConsumedData) : ∃ n, Sends s c (s.onCanWrite c yield d) n := by
  unfold onCanWrite
  split
  · exact ⟨0, sends_nothing rfl rfl rfl rfl rfl rfl⟩
  next hopen =>
  split
  · exact sends_writeBufferedData hs hc (Bool.eq_false_iff.2 hopen) yield d
  · exact ⟨0, sends_nothing rfl rfl rfl rfl rfl rfl⟩

theorem sends_writeOrBufferData (length : Nat) (fin yield : Bool) (d : QuicConsumedData) :
    ∃ n, Sends s c (s.writeOrBufferData c length fin yield d) n := by
  unfold writeOrBufferData
  split
  · exact ⟨0, sends_nothing rfl rfl rfl rfl rfl rfl⟩
  next hrefuse =>
  split
  · exact ⟨0, sends_nothing rfl rfl rfl rfl rfl rfl⟩
  · have hopen : (s.save length fin).writeSideClosed = false := Bool.eq_false_iff.2 fun h => hrefuse (.inr (.inr h))
    obtain ⟨n, hn⟩ := sends_writeBufferedData (s := s.save length fin) hs hc hopen yield d
    exact ⟨n, { hn with }⟩

end

end SendStream

end Quictun
