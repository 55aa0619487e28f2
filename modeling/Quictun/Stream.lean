import Mathlib.Data.List.Basic

/-!
# The stream as its user sees it

`QuictunStream` reduced to what a tunnel (or the server's key reader) can observe: the
contiguous unread bytes and whether the FIN comes right after them, the amount of unsent and
of unacknowledged data, and the two sides. The flag that an operation returns is set if the
call closed the stream, so that `OnStreamGone()` was called before it returned.
-/

namespace Quictun

abbrev Bytes := List UInt8

def bufferedDataThreshold : Nat := 8 * 1024

structure QuictunStream where
  /-- Received in sequence and not read yet (`sequencer()->ReadableBytes()`). -/
  readable : Bytes := []
  /-- The FIN is known and comes right after `readable`. -/
  fin : Bool := false
  finRead : Bool := false
  readSideClosed : Bool := false
  readingStopped : Bool := false
  /-- `BufferedDataBytes()`: written by the user, not sent yet. -/
  buffered : Nat := 0
  outstanding : Nat := 0
  finBuffered : Bool := false
  finSent : Bool := false
  finOutstanding : Bool := false
  rstSent : Bool := false
  /-- `!stream_error_.ok()`. -/
  streamError : Bool := false
  writeSideClosed : Bool := false
deriving DecidableEq, Inhabited

namespace QuictunStream

section
variable (s : QuictunStream)

def hasBufferedData : Bool := 0 < s.buffered

def isWaitingForAcks : Bool :=
  (!s.rstSent || !s.streamError) && (0 < s.outstanding || s.finOutstanding)

def canWriteNewData : Bool := s.buffered < bufferedDataThreshold

-- `ReleaseBuffer()` drops what was not read; a FIN behind dropped bytes is never reached
def closeReadSide : QuictunStream × Bool :=
  if s.readSideClosed then (s, false)
  else ({ s with readSideClosed := true, readable := [], fin := s.fin && s.readable.isEmpty }, s.writeSideClosed)

def closeWriteSide : QuictunStream × Bool :=
  if s.writeSideClosed then (s, false) else ({ s with writeSideClosed := true }, s.readSideClosed)

def read (n : Nat) : Bytes × Bool × QuictunStream × Bool :=
  let s₁ := { s with readable := s.readable.drop n }
  if s₁.fin && s₁.readable.isEmpty then
    (s.readable.take n, true, { s₁ with finRead := true }.closeReadSide)
  else (s.readable.take n, false, s₁, false)

/-- `WriteBufferedData`, of which the connection takes `k` bytes, and the FIN if `finTaken`. -/
def writeBufferedData (k : Nat) (finTaken : Bool) : QuictunStream × Bool :=
  let k := min k s.buffered
  let s₁ := { s with buffered := s.buffered - k, outstanding := s.outstanding + k }
  if s.finBuffered && finTaken && s₁.buffered == 0 then
    closeWriteSide { s₁ with finSent := true, finOutstanding := true }
  else (s₁, false)

def writeToStream (data : Bytes) (fin : Bool) (k : Nat) (finTaken : Bool) :
    QuictunStream × Bool :=
  if (data.isEmpty && !fin) || s.finBuffered || s.writeSideClosed then (s, false)
  else
    let s₁ := { s with finBuffered := fin, buffered := s.buffered + data.length }
    if s.hasBufferedData then (s₁, false) else s₁.writeBufferedData k finTaken

/-- `StopReading()`. The flush also skips gaps, so it may reach a FIN that was not next to be
read: `finReached`. -/
def stopReading (finReached : Bool) : QuictunStream × Bool :=
  if s.readingStopped then (s, false)
  else
    let s₁ := { s with readingStopped := true, readable := [], fin := s.fin || finReached }
    if s₁.fin then s₁.closeReadSide else (s₁, false)

def maybeSendRstStream : QuictunStream × Bool :=
  if s.rstSent then (s, false) else closeWriteSide { s with rstSent := true }

/-- `Reset()`: `MaybeSendStopSending`, which closes the read side, then `MaybeSendRstStream`. -/
def reset : QuictunStream × Bool :=
  let r := closeReadSide { s with streamError := true }
  let q := r.1.maybeSendRstStream
  (q.1, r.2 || q.2)

def onConnectionClosed : QuictunStream × Bool :=
  let r := closeWriteSide { s with streamError := true }
  let q := r.1.closeReadSide
  (q.1, r.2 || q.2)

end

/-! ## Frames from the peer -/

inductive Notice
  | gone | dataAvailable | canWriteMore
deriving DecidableEq

def goneIf (gone : Bool) : Option Notice := if gone then some .gone else none

variable (s : QuictunStream)

def onStreamFrame (bs : Bytes) (fin : Bool) : QuictunStream × Option Notice :=
  if s.readSideClosed || s.fin then (s, none)
  else if s.readingStopped then
    if fin then
      let r := closeReadSide { s with fin := true }
      (r.1, goneIf r.2)
    else (s, none)
  else ({ s with readable := s.readable ++ bs, fin := fin }, if bs.isEmpty && !fin then none else some .dataAvailable)

def onStreamReset (error : Bool) : QuictunStream × Bool :=
  closeReadSide { s with streamError := error }

def onStopSending (error : Bool) : QuictunStream × Bool :=
  if s.writeSideClosed && !s.isWaitingForAcks then (s, false)
  else maybeSendRstStream { s with streamError := error }

/-- `OnCanWrite()`. A write that sends the FIN leaves nothing to be notified about. -/
def onCanWrite (k : Nat) (finTaken : Bool) : QuictunStream × Option Notice :=
  if s.writeSideClosed then (s, none)
  else
    let r := if s.hasBufferedData || (s.finBuffered && !s.finSent) then s.writeBufferedData k finTaken else (s, false)
    (r.1, if !r.1.finBuffered && !r.1.finSent && r.1.canWriteNewData then some .canWriteMore else goneIf r.2)

def onAck (k : Nat) (fin : Bool) : QuictunStream :=
  { s with outstanding := s.outstanding - k, finOutstanding := s.finOutstanding && !fin }

end QuictunStream

end Quictun
