import Quictun.ReceiveStream
import Quictun.SendBuffer
import Quictun.SendStream

/-!
# Sent data until it is acknowledged

`QuicStream` keeps what it has sent in its send buffer, and the state of its FIN in `fin_sent_`,
`fin_outstanding_` and `fin_lost_`. Lost data is sent again by `WritePendingRetransmission()`, and a
probe sends what it likes by `RetransmitStreamData()`. How much of an offer the connection takes, the
send window and whether the deadline has passed are arguments.

`log` is the history, newest first: what `WritevData()` took, and the calls that report what became
of a frame. No function of the stream reads or writes it.
-/

namespace Quictun

namespace StreamFrame

def stop (f : StreamFrame) : Nat := f.offset + f.length

/-- What `WritevData()` takes of an offer. The FIN goes with the last byte. -/
def taken (f : StreamFrame) (d : QuicConsumedData) : QuicConsumedData where
  bytesConsumed := min d.bytesConsumed f.length
  finConsumed := f.fin && d.finConsumed && f.length ≤ d.bytesConsumed

end StreamFrame

inductive NoteKind
  | sent
  | acked
  | lost
  | retransmitted
deriving DecidableEq

structure Note where
  kind : NoteKind
  offset : Nat
  length : Nat
  fin : Bool
deriving DecidableEq

structure SentStream where
  sendBuffer : QuicStreamSendBufferInlining := {}
  finBuffered : Bool := false
  finSent : Bool := false
  finOutstanding : Bool := false
  finLost : Bool := false
  writeSideClosed : Bool := false
  rstSent : Bool := false
  streamErrorOk : Bool := true
  log : List Note := []

/-- What a call of `WritePendingRetransmission()` leaves: the stream, what it has offered, and whether
the loop has come to its end. -/
structure PendingWrites where
  stream : SentStream
  offers : List StreamFrame
  finished : Bool

namespace SentStream

open QuicIntervalSet

section
variable (s : SentStream)

def note (kind : NoteKind) (offset length : Nat) (fin : Bool) : SentStream :=
  { s with log := ⟨kind, offset, length, fin⟩ :: s.log }

def writevData (kind : NoteKind) (f : StreamFrame) (c : QuicConsumedData) : SentStream :=
  s.note kind f.offset c.bytesConsumed c.finConsumed

def streamBytesWritten (s : SentStream) : Nat := s.sendBuffer.streamBytesWritten

def bufferedDataBytes : Nat := s.sendBuffer.streamOffset - s.streamBytesWritten

def hasBufferedData : Bool := s.streamBytesWritten < s.sendBuffer.streamOffset

/-- `ResetWithError()` and `ResetWriteSide()`, as far as the sending side goes. -/
def reset (errorOk : Bool) : SentStream :=
  { s with streamErrorOk := errorOk, rstSent := true, writeSideClosed := true }

/-! ## Sending -/

def onWritten (f : StreamFrame) (c : QuicConsumedData) : SentStream :=
  let s := { s with sendBuffer := s.sendBuffer.onStreamDataConsumed c.bytesConsumed }
  if c.bytesConsumed = f.length ∧ f.fin = true ∧ c.finConsumed = true then
    { s with finSent := true, finOutstanding := true, writeSideClosed := true }
  else s

def writeBufferedData (yield : Bool) (sendWindow : Nat) (d : QuicConsumedData) : SentStream :=
  if yield then s
  else if sendWindow = 0 ∧ ¬ (s.finBuffered = true ∧ s.bufferedDataBytes = 0) then s
  else
    -- The FIN is offered only if all the data is.
    let f : StreamFrame := ⟨s.streamBytesWritten, min s.bufferedDataBytes sendWindow,
      s.finBuffered && s.bufferedDataBytes ≤ sendWindow⟩
    (s.writevData .sent f (f.taken d)).onWritten f (f.taken d)

def writeUnlessBuffered (hadBufferedData yield : Bool) (sendWindow : Nat) (d : QuicConsumedData) : SentStream :=
  if !hadBufferedData && (s.hasBufferedData || s.finBuffered) then s.writeBufferedData yield sendWindow d else s

def writeOrBufferData (maxDataSliceSize : Nat) (s : SentStream) (data : Bytes) (fin yield : Bool) (sendWindow : Nat)
    (d : QuicConsumedData) : SentStream :=
  if data = [] ∧ fin = false then s
  else if s.finBuffered || s.writeSideClosed then s
  else if kMaxStreamLength - s.sendBuffer.streamOffset < data.length then { s with finBuffered := fin }
  else
    { s with
      finBuffered := fin
      sendBuffer :=
        if data = [] then s.sendBuffer else s.sendBuffer.saveStreamData maxDataSliceSize data }.writeUnlessBuffered
        s.hasBufferedData yield sendWindow d

def canWriteNewData (bufferedDataThreshold : Nat) : Bool := s.bufferedDataBytes < bufferedDataThreshold

/-- Data beyond the longest stream closes the connection, after it was saved. -/
def writeMemSlices (bufferedDataThreshold : Nat) (s : SentStream) (span : List Bytes)
    (fin bufferUnconditionally yield : Bool)
    (sendWindow : Nat) (d : QuicConsumedData) : QuicConsumedData × SentStream :=
  if span = [] ∧ fin = false then (⟨0, false⟩, s)
  else if s.finBuffered || s.writeSideClosed then (⟨0, false⟩, s)
  else if s.canWriteNewData bufferedDataThreshold || span = [] || bufferUnconditionally then
    let r := s.sendBuffer.saveMemSliceSpan span
    if span ≠ [] ∧ kMaxStreamLength < r.2.streamOffset then (⟨r.1, fin⟩, { s with sendBuffer := r.2 })
    else
      (⟨r.1, fin⟩, { s with sendBuffer := r.2, finBuffered := fin }.writeUnlessBuffered s.hasBufferedData yield
        sendWindow d)
  else (⟨0, false⟩, { s with finBuffered := false }.writeUnlessBuffered s.hasBufferedData yield sendWindow d)

/-! ## What becomes of a frame -/

/-- With whether the acknowledgement brought anything new, and `*newly_acked_length`. -/
def onStreamFrameAcked (enabled : Bool) (s : SentStream) (offset dataLength : Nat) (finAcked : Bool)
    (probes : List Nat) :
    Bool × Nat × SentStream :=
  let r := s.sendBuffer.onStreamDataAcked enabled offset dataLength probes
  let t := { s with sendBuffer := r.2.2 }
  if !r.1 then (false, r.2.1, t)
  else if !s.finSent && finAcked then (false, r.2.1, t)
  else
    (0 < r.2.1 || finAcked && s.finOutstanding, r.2.1,
      { t with finOutstanding := s.finOutstanding && !finAcked, finLost := s.finLost && !finAcked })

def onStreamFrameRetransmitted (offset dataLength : Nat) (finRetransmitted : Bool) : SentStream :=
  { s with
    sendBuffer := s.sendBuffer.onStreamDataRetransmitted offset dataLength
    finLost := s.finLost && !finRetransmitted }

def onStreamFrameLost (offset dataLength : Nat) (finLost : Bool) : SentStream :=
  { s with
    sendBuffer := if 0 < dataLength then s.sendBuffer.onStreamDataLost offset dataLength else s.sendBuffer
    finLost := s.finLost || finLost && s.finOutstanding }

def hasPendingRetransmission (s : SentStream) : Bool := s.sendBuffer.hasPendingRetransmission || s.finLost

def isWaitingForAcks : Bool :=
  (!s.rstSent || s.streamErrorOk) && (s.sendBuffer.streamBytesOutstanding != 0 || s.finOutstanding)

end

/-! ## Sending again -/

section
variable (answers : Nat → QuicConsumedData)

/-- The loop of `RetransmitStreamData()` from the `k`-th call of `WritevData()` on: whether the FIN is left to be sent
and the number of the next call, or nothing once the connection is blocked. -/
def retransmitIntervals : Nat → QuicIntervalSet Nat → Bool → SentStream → Option (Bool × Nat) × SentStream
  | k, [], retransmitFin, s => (some (retransmitFin, k), s)
  | k, i :: rest, retransmitFin, s =>
    let canBundleFin := retransmitFin && i.min + (i.max - i.min) == s.streamBytesWritten
    let f : StreamFrame := ⟨i.min, i.max - i.min, canBundleFin⟩
    let c := f.taken (answers k)
    let t := (s.writevData .retransmitted f c).onStreamFrameRetransmitted f.offset c.bytesConsumed c.finConsumed
    if c.bytesConsumed < f.length ∨ (canBundleFin = true ∧ c.finConsumed = false) then (none, t)
    else retransmitIntervals (k + 1) rest (if canBundleFin then !c.finConsumed else retransmitFin) t

/-- A FIN that is sent alone does not clear `fin_lost_` here. -/
def retransmitFinOnly (k : Nat) (s : SentStream) : Bool × SentStream :=
  let f : StreamFrame := ⟨s.streamBytesWritten, 0, true⟩
  ((f.taken (answers k)).finConsumed, s.writevData .sent f (f.taken (answers k)))

variable (s : SentStream)

def retransmitStreamData (offset dataLength : Nat) (fin hasDeadlinePassed : Bool) : Bool × SentStream :=
  if hasDeadlinePassed then (true, s.reset false)
  else
    let retransmission := (QuicIntervalSet.add [] ⟨offset, offset + dataLength⟩).difference s.sendBuffer.bytesAcked
    let retransmitFin := fin && s.finOutstanding
    if retransmission = [] ∧ retransmitFin = false then (true, s)
    else
      let r := retransmitIntervals answers 0 retransmission retransmitFin s
      match r.1 with
      | none => (false, r.2)
      | some (true, k) => retransmitFinOnly answers k r.2
      | some (false, _) => (true, r.2)

def pendingOffer : StreamFrame :=
  if s.sendBuffer.hasPendingRetransmission then
    let pending := s.sendBuffer.nextPendingRetransmission
    ⟨pending.offset, pending.length, s.finLost && pending.offset + pending.length == s.streamBytesWritten⟩
  else ⟨s.streamBytesWritten, 0, true⟩

def onPendingWritten (f : StreamFrame) (c : QuicConsumedData) : SentStream :=
  if s.sendBuffer.hasPendingRetransmission then s.onStreamFrameRetransmitted f.offset c.bytesConsumed c.finConsumed
  else { s with finLost := !c.finConsumed }

def writePending : Nat → Nat → SentStream → PendingWrites
  | 0, _, s => ⟨s, [], false⟩
  | turns + 1, k, s =>
    if s.hasPendingRetransmission then
      let f := s.pendingOffer
      let c := f.taken (answers k)
      let t := (s.writevData .retransmitted f c).onPendingWritten f c
      if c.bytesConsumed < f.length ∨ (f.fin = true ∧ c.finConsumed = false) then ⟨t, [f], true⟩
      else
        let r := writePending turns (k + 1) t
        { r with offers := f :: r.offers }
    else ⟨s, [], true⟩

def writePendingRetransmission : PendingWrites :=
  writePending answers (s.sendBuffer.pendingRetransmissions.length + 2) 0 s

/-- `OnCanWriteNewData()` is left to the stream's owner, who writes by the calls above. -/
def onCanWrite (hasDeadlinePassed yield : Bool) (sendWindow : Nat) (d : QuicConsumedData) : SentStream :=
  if hasDeadlinePassed then s.reset false
  else if s.hasPendingRetransmission then (s.writePendingRetransmission answers).stream
  else if s.writeSideClosed then s
  else if s.hasBufferedData || (s.finBuffered && !s.finSent) then s.writeBufferedData yield sendWindow d
  else s

end

/-! ## Runs -/

inductive Ev
  | writeOrBufferData (data : Bytes) (fin yield : Bool) (sendWindow : Nat) (d : QuicConsumedData)
  | writeMemSlices (span : List Bytes) (fin bufferUnconditionally yield : Bool) (sendWindow : Nat)
    (d : QuicConsumedData)
  | onCanWrite (hasDeadlinePassed yield : Bool) (sendWindow : Nat) (d : QuicConsumedData)
    (answers : Nat → QuicConsumedData)
  | onStreamFrameAcked (offset dataLength : Nat) (fin : Bool) (probes : List Nat)
  | onStreamFrameLost (offset dataLength : Nat) (fin : Bool)
  | onStreamFrameRetransmitted (offset dataLength : Nat) (fin : Bool)
  | retransmitStreamData (offset dataLength : Nat) (fin hasDeadlinePassed : Bool) (answers : Nat → QuicConsumedData)
  | writePendingRetransmission (answers : Nat → QuicConsumedData)
  | reset (errorOk : Bool)

def Sendable (s : SentStream) (offset dataLength : Nat) (fin : Bool) : Prop :=
  offset + dataLength ≤ s.streamBytesWritten ∧ (fin = true → s.finSent = true)

instance (s : SentStream) (offset dataLength : Nat) (fin : Bool) : Decidable (s.Sendable offset dataLength fin) :=
  inferInstanceAs (Decidable (_ ∧ _))

def step (enabled : Bool) (maxDataSliceSize bufferedDataThreshold : Nat) (s : SentStream) : Ev → Option SentStream
  | .writeOrBufferData data fin yield window d => some (s.writeOrBufferData maxDataSliceSize data fin yield window d)
  | .writeMemSlices span fin unconditionally yield window d =>
    some (s.writeMemSlices bufferedDataThreshold span fin unconditionally yield window d).2
  | .onCanWrite passed yield window d answers => some (s.onCanWrite answers passed yield window d)
  | .onStreamFrameAcked o n fin probes =>
    if s.Sendable o n fin then some ((s.note .acked o n fin).onStreamFrameAcked enabled o n fin probes).2.2 else none
  | .onStreamFrameLost o n fin =>
    if s.Sendable o n fin then some ((s.note .lost o n fin).onStreamFrameLost o n fin) else none
  | .onStreamFrameRetransmitted o n fin => some ((s.note .retransmitted o n fin).onStreamFrameRetransmitted o n fin)
  | .retransmitStreamData o n fin passed answers => some (s.retransmitStreamData answers o n fin passed).2
  | .writePendingRetransmission answers => some (s.writePendingRetransmission answers).stream
  | .reset errorOk => some (s.reset errorOk)

end SentStream

end Quictun
