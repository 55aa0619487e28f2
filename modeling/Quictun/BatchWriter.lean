import Mathlib.Algebra.Order.Ring.Nat
import Quictun.Run
import Quictun.Stream

/-!
# The GSO batch writer

`QuicBatchWriterBase` collects packets in one buffer of 64 KiB, `QuicGsoBatchWriter` decides which
packets may share a batch and hands a batch to the kernel as one message with a segment size. A
packet is buffered before the flush it triggers if it may join the batch, and after it otherwise.
Several connections may share a writer; to the writer they differ only in their addresses.
-/

namespace Quictun

def kMaxOutgoingPacketSize : Nat := 1452
def kMaxGsoPacketSize : Nat := 65535 - 40 - 8

inductive QuicEcnCodepoint
  | notEct | ect1 | ect0 | ce
deriving DecidableEq

structure QuicPacketWriterParams where
  releaseTimeDelay : Nat := 0
  allowBurst : Bool := false
  ecnCodepoint : QuicEcnCodepoint := .notEct
  flowLabel : Nat := 0
deriving DecidableEq

inductive WriteStatus
  | ok | blocked | blockedDataBuffered | error | msgTooBig
deriving DecidableEq

def isWriteBlockedStatus (status : WriteStatus) : Bool := status = .blocked || status = .blockedDataBuffered

def isWriteError (status : WriteStatus) : Bool := status = .error || status = .msgTooBig

structure PacketWriteResult where
  status : WriteStatus
  /-- The bytes written or the error code. -/
  value : Nat
  droppedPackets : Nat := 0
  batchId : Nat := 0
  sendTimeOffset : Int := 0
deriving DecidableEq

inductive SendmsgResult
  | ok | blocked (code : Nat) | error (code : Nat)
deriving DecidableEq

variable {Ip Addr : Type} [DecidableEq Ip] [DecidableEq Addr]

/-- `buffer` is a position in the writer's buffer. -/
structure BufferedWrite (Ip Addr : Type) where
  buffer : Nat
  bufLen : Nat
  selfAddress : Ip
  peerAddress : Addr
  params : QuicPacketWriterParams
  releaseTime : Nat

/-! ## Memory -/

def load (mem : Nat → UInt8) (pos len : Nat) : Bytes := (List.range len).map fun i => mem (pos + i)

def store (mem : Nat → UInt8) (pos : Nat) (data : Bytes) : Nat → UInt8 := fun i =>
  if pos ≤ i then (data[i - pos]?).getD (mem i) else mem i

/-- Where the caller's packet is: in memory of its own, or in the writer's buffer. -/
inductive PacketSource
  | external (data : Bytes)
  | internal (pos len : Nat)

def PacketSource.bufLen : PacketSource → Nat
  | external data => data.length
  | internal _ len => len

def PacketSource.data (mem : Nat → UInt8) : PacketSource → Bytes
  | external data => data
  | internal pos len => load mem pos len

structure OutgoingPacket (Ip Addr : Type) where
  data : Bytes
  selfAddress : Ip
  peerAddress : Addr
  ecnCodepoint : QuicEcnCodepoint

/-! ## The buffer -/

structure QuicBatchWriterBuffer (Ip Addr : Type) where
  mem : Nat → UInt8 := fun _ => 0
  bufferedWrites : List (BufferedWrite Ip Addr) := []
  batchId : Nat := 0

namespace QuicBatchWriterBuffer

def kBufferSize : Nat := 64 * 1024

variable (b : QuicBatchWriterBuffer Ip Addr)

def packets : List (OutgoingPacket Ip Addr) :=
  b.bufferedWrites.map fun w => ⟨load b.mem w.buffer w.bufLen, w.selfAddress, w.peerAddress, w.params.ecnCodepoint⟩

def clear : QuicBatchWriterBuffer Ip Addr := { b with bufferedWrites := [] }

def sizeInUse : Nat :=
  match b.bufferedWrites.getLast? with
  | none => 0
  | some last => last.buffer + last.bufLen

def getNextWriteLocation : Option Nat :=
  if kBufferSize - b.sizeInUse < kMaxOutgoingPacketSize then none else some b.sizeInUse

/-- The memory with the packet at position `next`, unless the packet lies across the end of the buffer. -/
def placePacket (mem : Nat → UInt8) (next : Nat) : PacketSource → Option (Nat → UInt8)
  | .external data => some (store mem next data)
  | .internal pos len =>
    if pos = next then some mem
    else if pos + len ≤ kBufferSize then some (store mem next (load mem pos len))
    else none

def nextBatchId (batchId : Nat) : Nat := if (batchId + 1) % 2 ^ 32 = 0 then 1 else (batchId + 1) % 2 ^ 32

def pushBufferedWrite (packet : PacketSource) (selfAddress : Ip) (peerAddress : Addr)
    (params : QuicPacketWriterParams) (releaseTime : Nat) : Option (QuicBatchWriterBuffer Ip Addr) :=
  match b.getNextWriteLocation with
  | none => none
  | some next =>
    match placePacket b.mem next packet with
    | none => none
    | some mem =>
      some {
        mem
        bufferedWrites := b.bufferedWrites ++ [⟨next, packet.bufLen, selfAddress, peerAddress, params, releaseTime⟩]
        batchId := if b.bufferedWrites.isEmpty then nextBatchId b.batchId else b.batchId }

def popBufferedWrite (numBufferedWrites : Nat) : QuicBatchWriterBuffer Ip Addr :=
  match b.bufferedWrites.drop numBufferedWrites with
  | [] => { b with bufferedWrites := [] }
  | front :: rest =>
    { b with
      mem := store b.mem 0 (load b.mem front.buffer (b.sizeInUse - front.buffer))
      bufferedWrites := (front :: rest).map fun w => { w with buffer := w.buffer - front.buffer } }

end QuicBatchWriterBuffer

/-! ## The writer -/

structure QuicGsoBatchWriter (Ip Addr : Type) where
  supportsReleaseTime : Bool
  writeBlocked : Bool := false
  batchBuffer : QuicBatchWriterBuffer Ip Addr := {}

/-- What `sendmsg()` is given: the kernel cuts the bytes into packets of `gsoSize`, if it is not 0. -/
structure GsoMessage (Ip Addr : Type) where
  bytes : Bytes
  gsoSize : Nat
  selfAddress : Ip
  peerAddress : Addr
  releaseTime : Nat
  ecnCodepoint : QuicEcnCodepoint
  flowLabel : Nat

structure GsoBatch (Ip Addr : Type) where
  message : GsoMessage Ip Addr
  packets : List (OutgoingPacket Ip Addr)

namespace QuicGsoBatchWriter

def maxSegments (gsoSize : Nat) : Nat := if gsoSize ≤ 2 then 16 else 45

variable (w : QuicGsoBatchWriter Ip Addr)

def getReleaseTime (params : QuicPacketWriterParams) (now : Nat) : Nat × Int :=
  let ideal := (now + params.releaseTimeDelay * 1000) % 2 ^ 64
  match w.batchBuffer.bufferedWrites.getLast? with
  | none => (ideal, 0)
  | some last =>
    if (params.releaseTimeDelay = 0 ∨ params.allowBurst) ∧ now ≤ last.releaseTime then
      (last.releaseTime, ((last.releaseTime : Int) - ideal).tdiv 1000)
    else (ideal, 0)

structure CanBatchResult where
  canBatch : Bool
  mustFlush : Bool

def canBatch (w : QuicGsoBatchWriter Ip Addr) (bufLen : Nat) (selfAddress : Ip) (peerAddress : Addr)
    (params : QuicPacketWriterParams) (releaseTime : Nat) : CanBatchResult :=
  match w.batchBuffer.bufferedWrites.head?, w.batchBuffer.bufferedWrites.getLast? with
  | some first, some last =>
    let canBurst := !w.supportsReleaseTime || params.releaseTimeDelay = 0 || params.allowBurst
    let maxSegments := maxSegments first.bufLen
    let canBatch : Bool :=
      w.batchBuffer.bufferedWrites.length < maxSegments && last.selfAddress = selfAddress &&
        last.peerAddress = peerAddress && w.batchBuffer.sizeInUse + bufLen ≤ kMaxGsoPacketSize &&
        first.bufLen = last.bufLen && bufLen ≤ first.bufLen &&
        first.params.ecnCodepoint = params.ecnCodepoint && (canBurst || first.releaseTime = releaseTime)
    ⟨canBatch, !canBatch || last.bufLen ≠ bufLen || w.batchBuffer.bufferedWrites.length + 1 = maxSegments⟩
  | _, _ => ⟨true, false⟩

variable (b : QuicBatchWriterBuffer Ip Addr)

def batch (first : BufferedWrite Ip Addr) : GsoBatch Ip Addr where
  message :=
    { bytes := load b.mem first.buffer b.sizeInUse
      gsoSize := if 1 < b.bufferedWrites.length then first.bufLen else 0
      selfAddress := first.selfAddress
      peerAddress := first.peerAddress
      releaseTime := first.releaseTime
      ecnCodepoint := first.params.ecnCodepoint
      flowLabel := first.params.flowLabel }
  packets := b.packets

def checkedFlush (kernel : SendmsgResult) :
    QuicBatchWriterBuffer Ip Addr × PacketWriteResult × Option (GsoBatch Ip Addr) :=
  match b.bufferedWrites.head? with
  | none => (b, ⟨.ok, 0, 0, 0, 0⟩, none)
  | some first =>
    match kernel with
    | .ok => (b.popBufferedWrite b.bufferedWrites.length, ⟨.ok, b.sizeInUse, 0, 0, 0⟩, some (batch b first))
    | .blocked code => (b, ⟨.blocked, code, 0, 0, 0⟩, none)
    | .error code => (b, ⟨.error, code, 0, 0, 0⟩, none)

structure Outcome (Ip Addr : Type) where
  writer : QuicGsoBatchWriter Ip Addr
  result : PacketWriteResult
  sent : Option (GsoBatch Ip Addr) := none

/-- The flush a packet triggers. `buffered` says whether the packet is in the buffer already. -/
def flushForPacket (buffered : Bool) (packet : PacketSource) (selfAddress : Ip)
    (peerAddress : Addr) (params : QuicPacketWriterParams) (releaseTime : Nat × Int) (kernel : SendmsgResult) :
    Outcome Ip Addr :=
  let flush := checkedFlush w.batchBuffer kernel
  let batchId := if buffered then w.batchBuffer.batchId else 0
  if flush.2.1.status ≠ .ok then
    if isWriteBlockedStatus flush.2.1.status then
      { writer := { w with batchBuffer := flush.1 }
        result := ⟨if buffered then .blockedDataBuffered else .blocked, flush.2.1.value, 0, batchId, 0⟩ }
    else
      let dropped := if buffered then flush.1.bufferedWrites.length else flush.1.bufferedWrites.length + 1
      { writer := { w with batchBuffer := flush.1.clear }
        result := { flush.2.1 with droppedPackets := min dropped (2 ^ 16 - 1) } }
  else if buffered then
    { writer := { w with batchBuffer := flush.1 }
      result := { flush.2.1 with sendTimeOffset := releaseTime.2, batchId := batchId }
      sent := flush.2.2 }
  else
    match flush.1.pushBufferedWrite packet selfAddress peerAddress params releaseTime.1 with
    | some b =>
      { writer := { w with batchBuffer := b }
        result := { flush.2.1 with sendTimeOffset := releaseTime.2, batchId := b.batchId }
        sent := flush.2.2 }
    | none =>
      { writer := { w with batchBuffer := flush.1 }
        result := { flush.2.1 with sendTimeOffset := releaseTime.2, batchId := 0 }
        sent := flush.2.2 }

def internalWritePacket (packet : PacketSource) (selfAddress : Ip) (peerAddress : Addr)
    (params : QuicPacketWriterParams) (now : Nat) (kernel : SendmsgResult) : Outcome Ip Addr :=
  if kMaxOutgoingPacketSize < packet.bufLen then { writer := w, result := ⟨.msgTooBig, 90, 0, 0, 0⟩ }
  else
    let releaseTime := if w.supportsReleaseTime then w.getReleaseTime params now else (0, 0)
    let can := w.canBatch packet.bufLen selfAddress peerAddress params releaseTime.1
    if can.canBatch then
      match w.batchBuffer.pushBufferedWrite packet selfAddress peerAddress params releaseTime.1 with
      | some b =>
        let w := { w with batchBuffer := b }
        if can.mustFlush || b.getNextWriteLocation.isNone then
          w.flushForPacket true packet selfAddress peerAddress params releaseTime kernel
        else { writer := w, result := ⟨.ok, 0, 0, 0, releaseTime.2⟩ }
      | none => w.flushForPacket false packet selfAddress peerAddress params releaseTime kernel
    else w.flushForPacket false packet selfAddress peerAddress params releaseTime kernel

def writePacket (packet : PacketSource) (selfAddress : Ip) (peerAddress : Addr)
    (params : QuicPacketWriterParams) (now : Nat) (kernel : SendmsgResult) : Outcome Ip Addr :=
  let o := w.internalWritePacket packet selfAddress peerAddress params now kernel
  if isWriteBlockedStatus o.result.status then { o with writer := { o.writer with writeBlocked := true } } else o

def flush (w : QuicGsoBatchWriter Ip Addr) (kernel : SendmsgResult) : Outcome Ip Addr :=
  let flush := checkedFlush w.batchBuffer kernel
  let o : Outcome Ip Addr :=
    if isWriteError flush.2.1.status then
      { writer := { w with batchBuffer := flush.1.clear }
        result := { flush.2.1 with droppedPackets := min flush.1.bufferedWrites.length (2 ^ 16 - 1) } }
    else { writer := { w with batchBuffer := flush.1 }, result := flush.2.1, sent := flush.2.2 }
  if flush.2.1.status = .blocked then { o with writer := { o.writer with writeBlocked := true } } else o

def setWritable : QuicGsoBatchWriter Ip Addr := { w with writeBlocked := false }

end QuicGsoBatchWriter

end Quictun
