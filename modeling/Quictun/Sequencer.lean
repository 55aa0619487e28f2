import Quictun.SequencerBuffer

/-!
# The sequencer

`QuicStreamSequencer` puts the frames of a stream into its buffer and tells the stream what it can do
with them. It learns the end of the stream from a FIN, which may come before the data does. Once all
has been consumed it hands up the FIN, and clears its buffer when the stream returns from that call.

`stack` holds what is left to be done when such calls return: for each the rest of the frame, if the
FIN came with data. `calls` are the calls to the stream, newest first. An error closes the connection.
-/

namespace Quictun

inductive SequencerError
  | differentCloseOffset
  | finReducesHighestOffset
  | invalidMarkConsumed
  | buffer (e : BufferError)
deriving DecidableEq

inductive StreamCall
  | onDataAvailable
  | onFinRead
  | addBytesConsumed (bytes : Nat)
deriving DecidableEq

structure Sequencer where
  bufferedFrames : QuicStreamSequencerBuffer := { maxBufferCapacityBytes := kStreamReceiveWindowLimit }
  highestOffset : Nat := 0
  closeOffset : Option Nat := none
  blocked : Bool := false
  ignoreReadData : Bool := false
  levelTriggered : Bool := false
  error : Option SequencerError := none
  calls : List StreamCall := []
  stack : List (Option (Nat × Bytes)) := []

namespace Sequencer

section
variable (s : Sequencer)

def numBytesConsumed : Nat := s.bufferedFrames.totalBytesRead

def readableBytes (s : Sequencer) : Nat := s.bufferedFrames.readableBytes

def isClosed : Bool := s.closeOffset.any (· ≤ s.numBytesConsumed)

def call (c : StreamCall) : Sequencer := { s with calls := c :: s.calls }

def onUnrecoverableError (e : SequencerError) : Sequencer := { s with error := some e }

/-! ## Closing -/

/-- `MaybeCloseStream()` up to the call of the stream. `rest` comes after it. -/
def passUpTermination (rest : Option (Nat × Bytes)) : Sequencer :=
  { s.call (if s.ignoreReadData then .onFinRead else .onDataAvailable) with stack := rest :: s.stack }

def maybeCloseStream : Sequencer := if s.blocked || !s.isClosed then s else s.passUpTermination none

def flushBufferedFrames (s : Sequencer) : Sequencer :=
  let r := s.bufferedFrames.flushBufferedFrames
  ({ s with bufferedFrames := r.2 }.call (.addBytesConsumed r.1)).maybeCloseStream

def stopReading : Sequencer :=
  if s.ignoreReadData then s else { s with ignoreReadData := true }.flushBufferedFrames

/-! ## Frames -/

def notify : Sequencer := if s.ignoreReadData then s.flushBufferedFrames else s.call .onDataAvailable

def onBytesWritten (previousReadableBytes bytesWritten : Nat) : Sequencer :=
  if bytesWritten = 0 then s
  else if s.blocked then s
  else if s.levelTriggered then if previousReadableBytes < s.readableBytes then s.notify else s
  else if previousReadableBytes = 0 ∧ 0 < s.readableBytes then s.notify
  else s

def onFrameData (enabled : Bool) (s : Sequencer) (byteOffset : Nat) (data : Bytes) : Sequencer :=
  let r := s.bufferedFrames.onStreamData enabled byteOffset data
  let t := { s with highestOffset := max s.highestOffset (byteOffset + data.length), bufferedFrames := r.2 }
  match r.1 with
  | .error e => t.onUnrecoverableError (.buffer e)
  | .ok bytesWritten => t.onBytesWritten s.readableBytes bytesWritten

def closeStreamAtOffset (offset : Nat) : Except SequencerError Sequencer :=
  if s.closeOffset.any (· ≠ offset) then .error .differentCloseOffset
  else if offset < s.highestOffset then .error .finReducesHighestOffset
  else .ok { s with closeOffset := some offset }

/-- The data of a frame, after its FIN. An empty frame has none. -/
def resume (enabled : Bool) (s : Sequencer) : Option (Nat × Bytes) → Sequencer
  | none => s
  | some (byteOffset, data) => s.onFrameData enabled byteOffset data

def frameData (byteOffset : Nat) (data : Bytes) : Option (Nat × Bytes) :=
  if data = [] then none else some (byteOffset, data)

def onStreamFrame (enabled : Bool) (s : Sequencer) (byteOffset : Nat) (data : Bytes) (fin : Bool) : Sequencer :=
  if fin then
    match s.closeStreamAtOffset (byteOffset + data.length) with
    | .error e => s.onUnrecoverableError e
    | .ok t =>
      if t.blocked || !t.isClosed then t.resume enabled (frameData byteOffset data)
      else t.passUpTermination (frameData byteOffset data)
  else s.resume enabled (frameData byteOffset data)

def callReturns (enabled : Bool) (s : Sequencer) : Sequencer :=
  match s.stack with
  | [] => s
  | rest :: stack => { s with bufferedFrames := s.bufferedFrames.clear, stack := stack }.resume enabled rest

/-! ## Reading -/

def readv (s : Sequencer) (dests : List Nat) : Bytes × Sequencer :=
  let r := s.bufferedFrames.readv dests
  let t := { s with bufferedFrames := r.buffer }
  match r.error with
  | some e => (r.bytes, t.onUnrecoverableError (.buffer e))
  | none => (r.bytes, t.call (.addBytesConsumed r.bytes.length))

def markConsumed (s : Sequencer) (numBytesConsumed : Nat) : Sequencer :=
  let r := s.bufferedFrames.markConsumed numBytesConsumed
  if r.1 then { s with bufferedFrames := r.2 }.call (.addBytesConsumed numBytesConsumed)
  else s.onUnrecoverableError .invalidMarkConsumed

def releaseBuffer : Sequencer := { s with bufferedFrames := s.bufferedFrames.releaseWholeBuffer }

end

/-! ## Runs -/

inductive Ev
  | onStreamFrame (offset : Nat) (data : Bytes) (fin : Bool)
  | readv (dests : List Nat)
  | markConsumed (numBytesConsumed : Nat)
  | stopReading
  | releaseBuffer
  | callReturns
deriving DecidableEq

end Sequencer

end Quictun
