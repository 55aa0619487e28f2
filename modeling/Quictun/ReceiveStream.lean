import Mathlib.Algebra.Group.Nat.Defs
import Quictun.IntervalSet

/-!
# The receiving half of a stream, and its credit

`QuicFlowController` (receiving side, auto-tuning off as the session sets it),
`QuicStreamSequencer` with its buffer, and what `QuicStream` does with them. A `Receiver`
is one stream together with the session's flow controller and the stream's entry in
`locally_closed_streams_highest_offset_`. The bytes themselves are left out.

`OnDataAvailable()` only tells the application that it may read; its reads come as calls
of their own. Errors close the connection.
-/

namespace Quictun

inductive QuicErrorCode
  | streamLengthOverflow | streamDataBeyondCloseOffset | flowControlReceivedTooMuchData
  | streamSequencerInvalidState | internalError | tooManyStreamDataIntervals | streamMultipleOffset
  | flowControlFinalSizeChanged
deriving DecidableEq

def kMaxStreamLength : Nat := 2 ^ 62 - 1
def kStreamReceiveWindowLimit : Nat := 2 * 1024 * 1024 * 1024
def kMaxNumDataIntervalsAllowed : Nat := 2 * 5000

/-! ## Flow controllers -/

structure QuicFlowController where
  bytesConsumed : Nat := 0
  highestReceivedByteOffset : Nat := 0
  receiveWindowOffset : Nat
  receiveWindowSize : Nat
deriving DecidableEq

namespace QuicFlowController

variable (f : QuicFlowController)

def flowControlViolation : Bool := f.receiveWindowOffset < f.highestReceivedByteOffset

def updateHighestReceivedOffset (newOffset : Nat) : QuicFlowController :=
  if newOffset ≤ f.highestReceivedByteOffset then f else { f with highestReceivedByteOffset := newOffset }

def availableWindow : Nat := f.receiveWindowOffset - f.bytesConsumed

def maybeSendWindowUpdate : QuicFlowController :=
  if f.receiveWindowSize / 2 ≤ f.availableWindow then f
  else { f with receiveWindowOffset := f.receiveWindowOffset + (f.receiveWindowSize - f.availableWindow) }

def addBytesConsumed (bytes : Nat) : QuicFlowController :=
  maybeSendWindowUpdate { f with bytesConsumed := f.bytesConsumed + bytes }

end QuicFlowController

/-! ## The sequencer -/

structure QuicStreamSequencer where
  bytesReceived : IntervalSet := []
  totalBytesRead : Nat := 0
  highestOffset : Nat := 0
  closeOffset : Option Nat := none
  ignoreReadData : Bool := false
deriving DecidableEq

namespace QuicStreamSequencer

variable (q : QuicStreamSequencer)

def readableBytes : Nat := q.bytesReceived.prefixEnd - q.totalBytesRead

def isClosed : Bool := q.closeOffset.any (· ≤ q.totalBytesRead)

def beyondCloseOffset (offset : Nat) : Bool := q.closeOffset.any (· < offset)

def clear : QuicStreamSequencer :=
  { q with bytesReceived := if q.totalBytesRead = 0 then [] else [(0, q.totalBytesRead)] }

/-- `QuicStreamSequencerBuffer::OnStreamData()`: the new set of bytes received, or nothing if there
was no new byte. -/
def onStreamData (offset len : Nat) : Except QuicErrorCode (Option IntervalSet) :=
  if kStreamReceiveWindowLimit + q.totalBytesRead < offset + len then .error .internalError
  else if q.bytesReceived.covers offset (offset + len) then .ok none
  else if kMaxNumDataIntervalsAllowed ≤ (q.bytesReceived.add offset (offset + len)).length then
    .error .tooManyStreamDataIntervals
  else .ok (some (q.bytesReceived.add offset (offset + len)))

end QuicStreamSequencer

structure QuicStream where
  flowController : QuicFlowController
  sequencer : QuicStreamSequencer := {}
  finReceived : Bool := false
  rstReceived : Bool := false
  readSideClosed : Bool := false
  writeSideClosed : Bool := false
deriving DecidableEq

namespace QuicStream

def closed (s : QuicStream) : Bool := s.readSideClosed && s.writeSideClosed

def hasReceivedFinalOffset (s : QuicStream) : Bool := s.finReceived || s.rstReceived

end QuicStream

structure Receiver where
  stream : QuicStream
  session : QuicFlowController
  locallyClosed : Option Nat := none
deriving DecidableEq

namespace Receiver

variable (v : Receiver)

def setSequencer (q : QuicStreamSequencer) : Receiver := { v with stream := { v.stream with sequencer := q } }

def highest : Nat := v.stream.flowController.highestReceivedByteOffset

/-! ## Credit -/

def addBytesConsumed (v : Receiver) (bytes : Nat) : Receiver :=
  { v with
    stream :=
      if v.stream.readSideClosed then v.stream
      else { v.stream with flowController := v.stream.flowController.addBytesConsumed bytes }
    session := v.session.addBytesConsumed bytes }

def maybeIncreaseHighestReceivedOffset (newOffset : Nat) : Receiver :=
  if newOffset ≤ v.highest then v
  else
    { v with
      stream := { v.stream with flowController := v.stream.flowController.updateHighestReceivedOffset newOffset }
      session := v.session.updateHighestReceivedOffset
        (v.session.highestReceivedByteOffset + (newOffset - v.highest)) }

def flowControlViolation (v : Receiver) : Bool :=
  v.stream.flowController.flowControlViolation || v.session.flowControlViolation

/-! ## Closing -/

def onStreamClosed : Receiver :=
  if v.stream.hasReceivedFinalOffset then v else { v with locallyClosed := some v.highest }

def onClose : Receiver :=
  if v.flowControlViolation then v else v.addBytesConsumed (v.highest - v.stream.flowController.bytesConsumed)

def releaseRead : Receiver :=
  { v with stream := { v.stream with readSideClosed := true, sequencer := v.stream.sequencer.clear } }

def closeReadSide : Receiver :=
  if v.stream.readSideClosed then v
  else if v.stream.writeSideClosed then v.releaseRead.onStreamClosed.onClose
  else v.releaseRead

def releaseWrite : Receiver := { v with stream := { v.stream with writeSideClosed := true } }

def closeWriteSide : Receiver :=
  if v.stream.writeSideClosed then v
  else if v.stream.readSideClosed then v.releaseWrite.onStreamClosed.onClose
  else v.releaseWrite

def onFinRead : Receiver := closeReadSide { v with stream := { v.stream with finReceived := true } }

-- `MaybeSendStopSending()` closes the read side, `MaybeSendRstStream()` the write side
def reset : Receiver := v.closeReadSide.closeWriteSide

/-! ## The sequencer at work -/

def clear (v : Receiver) : Receiver := v.setSequencer v.stream.sequencer.clear

def maybeCloseStream : Receiver :=
  if v.stream.sequencer.isClosed then
    if v.stream.sequencer.ignoreReadData then v.onFinRead.clear else v.clear
  else v

def flushBufferedFrames : Receiver :=
  let q := v.stream.sequencer
  ((v.setSequencer { q with totalBytesRead := q.bytesReceived.sup }.clear).addBytesConsumed
    (q.bytesReceived.sup - q.totalBytesRead)).maybeCloseStream

def stopReading : Receiver :=
  if v.stream.sequencer.ignoreReadData then v
  else (v.setSequencer { v.stream.sequencer with ignoreReadData := true }).flushBufferedFrames

def read (n : Nat) : Receiver :=
  let q := v.stream.sequencer
  let k := min n q.readableBytes
  let v' := (v.setSequencer { q with totalBytesRead := q.totalBytesRead + k }).addBytesConsumed k
  if v'.stream.sequencer.isClosed then v'.onFinRead else v'

def closeStreamAtOffset (offset : Nat) : Except QuicErrorCode Receiver :=
  let q := v.stream.sequencer
  if q.closeOffset.any (· ≠ offset) then .error .streamSequencerInvalidState
  else if offset < q.highestOffset then .error .streamSequencerInvalidState
  else .ok (v.setSequencer { q with closeOffset := some offset }).maybeCloseStream

-- the sequencer is level-triggered
def onFrameData (offset len : Nat) : Except QuicErrorCode Receiver :=
  let q := { v.stream.sequencer with highestOffset := max v.stream.sequencer.highestOffset (offset + len) }
  match q.onStreamData offset len with
  | .error e => .error e
  | .ok none => .ok (v.setSequencer q)
  | .ok (some received) =>
    let v' := v.setSequencer { q with bytesReceived := received }
    if q.readableBytes < v'.stream.sequencer.readableBytes && q.ignoreReadData then .ok v'.flushBufferedFrames
    else .ok v'

def sequence (offset len : Nat) (fin : Bool) : Except QuicErrorCode Receiver :=
  if fin then
    match v.closeStreamAtOffset (offset + len) with
    | .error e => .error e
    | .ok v' => if len = 0 then .ok v' else v'.onFrameData offset len
  else if len = 0 then .ok v
  else v.onFrameData offset len

/-! ## Frames -/

def setFinReceived (fin : Bool) : Receiver :=
  { v with stream := { v.stream with finReceived := v.stream.finReceived || fin } }

def onStreamFrame (offset len : Nat) (fin : Bool) : Except QuicErrorCode Receiver :=
  if kMaxStreamLength < offset + len then .error .streamLengthOverflow
  else if v.stream.sequencer.beyondCloseOffset (offset + len) then .error .streamDataBeyondCloseOffset
  else if v.stream.readSideClosed then .ok (v.setFinReceived fin)
  else
    let v₁ := v.setFinReceived fin
    let v₂ := if 0 < len then v₁.maybeIncreaseHighestReceivedOffset (offset + len) else v₁
    if v₁.highest < v₂.highest && v₂.flowControlViolation then .error .flowControlReceivedTooMuchData
    else v₂.sequence offset len fin

def onStreamReset (byteOffset : Nat) : Except QuicErrorCode Receiver :=
  if kMaxStreamLength < byteOffset then .error .streamLengthOverflow
  else if v.stream.sequencer.closeOffset.any (· ≠ byteOffset) then .error .streamMultipleOffset
  else
    let v₁ := { v with stream := { v.stream with rstReceived := true } }.maybeIncreaseHighestReceivedOffset byteOffset
    if v₁.flowControlViolation then .error .flowControlReceivedTooMuchData else .ok v₁.closeReadSide

def onFinalByteOffsetReceived (finalByteOffset : Nat) : Except QuicErrorCode Receiver :=
  match v.locallyClosed with
  | none => .ok v
  | some offset =>
    if finalByteOffset < offset then .error .flowControlFinalSizeChanged
    else
      let diff := finalByteOffset - offset
      let f := v.session.updateHighestReceivedOffset (v.session.highestReceivedByteOffset + diff)
      if f.flowControlViolation then .error .flowControlReceivedTooMuchData
      else .ok { v with session := f.addBytesConsumed diff, locallyClosed := none }

def receiveStreamFrame (offset len : Nat) (fin : Bool) : Except QuicErrorCode Receiver :=
  if v.stream.closed then if fin then v.onFinalByteOffsetReceived (offset + len) else .ok v
  else v.onStreamFrame offset len fin

def receiveRstStream (byteOffset : Nat) : Except QuicErrorCode Receiver :=
  if v.stream.closed then v.onFinalByteOffsetReceived byteOffset else v.onStreamReset byteOffset

end Receiver

end Quictun
