import Quictun.BlockRing
import Quictun.QuicIntervalSetOps
import Quictun.ReceiveStream
import Quictun.Stream

/-!
# The buffer of received data

`QuicStreamSequencerBuffer` keeps the data that was received and not read yet in a ring of blocks. A
block is allocated when data for it arrives, and freed when all of it has been read.

`blocks` is the array of pointers, with `current_blocks_count_` entries. An access through a null
pointer, or outside the array, gives no value. `retired` is the history of the blocks that reading has
freed, with what the buffer held at the time, and `bugs` counts the `QUIC_BUG`s.
-/

namespace Quictun

def kBlockSizeBytes : Nat := 8 * 1024
def kInitialBlockCount : Nat := 8
def kBlocksGrowthFactor : Nat := 4

def calculateBlockCount (maxCapacityBytes : Nat) : Nat := (maxCapacityBytes + kBlockSizeBytes - 1) / kBlockSizeBytes

abbrev BufferBlock := Nat → UInt8

namespace BufferBlock

def write (b : BufferBlock) (offset : Nat) (data : Bytes) : BufferBlock := fun j =>
  if offset ≤ j ∧ j < offset + data.length then data.getD (j - offset) 0 else b j

def read (b : BufferBlock) (offset length : Nat) : Bytes := (List.range' offset length).map b

end BufferBlock

inductive BufferError
  | emptyFrame
  | beyondAvailableRange
  | tooManyIntervals
  | exceedArrayBounds
  | blockIsNull
  | failToRetire
deriving DecidableEq

def BufferError.invalidState : BufferError → Bool
  | exceedArrayBounds | blockIsNull | failToRetire => true
  | emptyFrame | beyondAvailableRange | tooManyIntervals => false

structure RetiredBlock where
  index : Nat
  totalBytesRead : Nat
  bytesReceived : QuicIntervalSet Nat

structure QuicStreamSequencerBuffer where
  maxBufferCapacityBytes : Nat
  blocks : List (Option BufferBlock) := []
  totalBytesRead : Nat := 0
  bytesReceived : QuicIntervalSet Nat := []
  numBytesBuffered : Nat := 0
  retired : List RetiredBlock := []
  bugs : Nat := 0

namespace QuicStreamSequencerBuffer

open QuicIntervalSet

variable (s : QuicStreamSequencerBuffer)

def maxBlocksCount : Nat := calculateBlockCount s.maxBufferCapacityBytes

def getBlockIndex (offset : Nat) : Nat := offset % s.maxBufferCapacityBytes / kBlockSizeBytes

def getInBlockOffset (offset : Nat) : Nat := offset % s.maxBufferCapacityBytes % kBlockSizeBytes

def getBlockCapacity (blockIndex : Nat) : Nat :=
  if blockIndex + 1 = s.maxBlocksCount then
    if s.maxBufferCapacityBytes % kBlockSizeBytes =
      0 then kBlockSizeBytes else s.maxBufferCapacityBytes % kBlockSizeBytes
  else kBlockSizeBytes

def readOffset : Nat := s.getInBlockOffset s.totalBytesRead

def nextBlockToRead : Nat := s.getBlockIndex s.totalBytesRead

def firstMissingByte : Nat :=
  match s.bytesReceived with
  | [] => 0
  | first :: _ => if 0 < first.min then 0 else first.max

def nextExpectedByte : Nat := (s.bytesReceived.getLast?.map QuicInterval.max).getD 0

def readableBytes : Nat := s.firstMissingByte - s.totalBytesRead

def empty : Bool :=
  match s.bytesReceived with
  | [] => true
  | [i] => 0 < s.totalBytesRead && i.max == s.totalBytesRead
  | _ => false

def block (index : Nat) : Option BufferBlock := s.blocks[index]?.join

/-! ## Freeing -/

def retireBlock (index : Nat) : Bool × QuicStreamSequencerBuffer :=
  match s.block index with
  | none => (false, { s with bugs := s.bugs + 1 })
  | some _ =>
    (true, { s with
      blocks := s.blocks.set index none
      retired := ⟨index, s.totalBytesRead, s.bytesReceived⟩ :: s.retired })

def retireBlockIfEmpty (blockIndex : Nat) : Bool × QuicStreamSequencerBuffer :=
  if s.empty then s.retireBlock blockIndex
  else if s.getBlockIndex (s.nextExpectedByte - 1) = blockIndex then (true, s)
  else if s.nextBlockToRead = blockIndex then
    match s.bytesReceived with
    | _ :: second :: _ => if s.getBlockIndex second.min = blockIndex then (true, s) else s.retireBlock blockIndex
    | _ => (false, { s with bugs := s.bugs + 1 })
  else s.retireBlock blockIndex

def clear : QuicStreamSequencerBuffer :=
  { s with
    blocks := s.blocks.map fun _ => none
    numBytesBuffered := 0
    bytesReceived := QuicIntervalSet.add [] ⟨0, s.totalBytesRead⟩ }

def releaseWholeBuffer : QuicStreamSequencerBuffer := { s.clear with blocks := [] }

def flushBufferedFrames : Nat × QuicStreamSequencerBuffer :=
  (s.nextExpectedByte - s.totalBytesRead, { s with totalBytesRead := s.nextExpectedByte }.clear)

/-! ## Receiving -/

def blocksNeeded (nextExpectedByte : Nat) : Nat :=
  if nextExpectedByte - 1 < s.maxBufferCapacityBytes then max
    (s.getBlockIndex (nextExpectedByte - 1) + 1) kInitialBlockCount
  else s.maxBlocksCount

def maybeAddMoreBlocks (nextExpectedByte : Nat) : QuicStreamSequencerBuffer :=
  if s.blocks.length = s.maxBlocksCount then s
  else if s.blocksNeeded nextExpectedByte ≤ s.blocks.length then s
  else
    let newBlockCount :=
      min (max (kBlocksGrowthFactor * s.blocks.length) (s.blocksNeeded nextExpectedByte)) s.maxBlocksCount
    { s with blocks := s.blocks ++ List.replicate (newBlockCount - s.blocks.length) none }

def writeBlock (index offset : Nat) (data : Bytes) : QuicStreamSequencerBuffer :=
  { s with blocks := s.blocks.set index (some (((s.block index).getD fun _ => 0).write offset data)) }

/-- The loop of `CopyStreamData()`, for at most so many turns: the error, `*bytes_copy`, and the buffer. -/
def copyBlocks : Nat → QuicStreamSequencerBuffer → Nat → Bytes → Option BufferError × Nat × QuicStreamSequencerBuffer
  | 0, s, _, _ => (none, 0, s)
  | turns + 1, s, offset, data =>
    if data = [] then (none, 0, s)
    else
      let writeBlockNum := s.getBlockIndex offset
      let writeBlockOffset := s.getInBlockOffset offset
      let bytesAvail := s.getBlockCapacity writeBlockNum - writeBlockOffset
      let bytesAvail :=
        if s.totalBytesRead + s.maxBufferCapacityBytes < offset + bytesAvail then
          s.totalBytesRead + s.maxBufferCapacityBytes - offset
        else bytesAvail
      -- Without an array this is the error, too.
      if s.blocks.length ≤ writeBlockNum then (some .exceedArrayBounds, 0, s)
      else
        let bytesToCopy := min bytesAvail data.length
        let r := copyBlocks turns (s.writeBlock writeBlockNum writeBlockOffset (data.take bytesToCopy))
          (offset + bytesToCopy)
          (data.drop bytesToCopy)
        (r.1, bytesToCopy + r.2.1, r.2.2)

def copyStreamData (offset : Nat) (data : Bytes) :
    Option BufferError × Nat × QuicStreamSequencerBuffer :=
  copyBlocks data.length s offset data

def copyIntervals (startingOffset : Nat) (data : Bytes) : QuicStreamSequencerBuffer → QuicIntervalSet Nat →
    Option BufferError × Nat × QuicStreamSequencerBuffer
  | s, [] => (none, 0, s)
  | s, i :: rest =>
    let r := s.copyStreamData i.min ((data.drop (i.min - startingOffset)).take (i.max - i.min))
    match r.1 with
    | some e => (some e, r.2.1, r.2.2)
    | none =>
      let r' := copyIntervals startingOffset data r.2.2 rest
      (r'.1, r.2.1 + r'.2.1, r'.2.2)

def bufferIntervals (startingOffset : Nat) (data : Bytes) (newlyReceived : QuicIntervalSet Nat) :
    Except BufferError Nat × QuicStreamSequencerBuffer :=
  if kMaxNumDataIntervalsAllowed ≤ s.bytesReceived.length then (.error .tooManyIntervals, s)
  else
    let r := copyIntervals startingOffset data (s.maybeAddMoreBlocks (startingOffset + data.length)) newlyReceived
    match r.1 with
    | some e => (.error e, r.2.2)
    | none => (.ok r.2.1, { r.2.2 with numBytesBuffered := r.2.2.numBytesBuffered + r.2.1 })

/-- With `*bytes_buffered`. `enabled` is the flag of `AddOptimizedForAppend()`. -/
def onStreamData (enabled : Bool) (s : QuicStreamSequencerBuffer) (startingOffset : Nat) (data : Bytes) :
    Except BufferError Nat × QuicStreamSequencerBuffer :=
  let range : QuicInterval Nat := ⟨startingOffset, startingOffset + data.length⟩
  if data = [] then (.error .emptyFrame, s)
  else if s.totalBytesRead + s.maxBufferCapacityBytes < range.max ∨
    2 ^ 64 ≤ range.max then (.error .beyondAvailableRange, s)
  else if s.bytesReceived.getLast?.all (fun last => last.max ≤ range.min) || s.bytesReceived.isDisjoint range then
    -- All of it is new.
    { s with bytesReceived := s.bytesReceived.addOptimizedForAppend enabled range }.bufferIntervals startingOffset data
      [range]
  else
    let newlyReceived := (QuicIntervalSet.add [] range).difference s.bytesReceived
    if newlyReceived = [] then (.ok 0, s)
    else { s with bytesReceived := s.bytesReceived.add range }.bufferIntervals startingOffset data newlyReceived

/-! ## Reading -/

def bytesAvailableInBlock : Nat :=
  min s.readableBytes (s.getBlockCapacity s.nextBlockToRead - s.readOffset)

def advance (bytes : Nat) : QuicStreamSequencerBuffer :=
  { s with totalBytesRead := s.totalBytesRead + bytes, numBytesBuffered := s.numBytesBuffered - bytes }

/-- One turn of reading or consuming: the block is retired if all that could be read of it has been. -/
def consume (bytes : Nat) : Bool × QuicStreamSequencerBuffer :=
  if bytes = s.bytesAvailableInBlock then (s.advance bytes).retireBlockIfEmpty s.nextBlockToRead else (true,
    s.advance bytes)

structure ReadResult where
  error : Option BufferError := none
  bytes : Bytes := []
  buffer : QuicStreamSequencerBuffer

/-- The inner loop of `Readv()`, for at most so many turns: into a destination with so much room. -/
def readDest : Nat → QuicStreamSequencerBuffer → Nat → ReadResult
  | 0, s, _ => { buffer := s }
  | turns + 1, s, destRemaining =>
    if destRemaining = 0 ∨ s.readableBytes = 0 then { buffer := s }
    else
      let bytesToCopy := min s.bytesAvailableInBlock destRemaining
      match s.block s.nextBlockToRead with
      | none => { error := some .blockIsNull, buffer := s }
      | some b =>
        let bytes := b.read s.readOffset bytesToCopy
        let r := s.consume bytesToCopy
        if r.1 then
          let rest := readDest turns r.2 (destRemaining - bytesToCopy)
          { rest with bytes := bytes ++ rest.bytes }
        else { error := some .failToRetire, bytes := bytes, buffer := r.2 }

/-- `dests` are the sizes of the destinations. -/
def readv : QuicStreamSequencerBuffer → List Nat → ReadResult
  | s, [] => { buffer := s }
  | s, dest :: dests =>
    if s.readableBytes = 0 then { buffer := s }
    else
      let r := readDest dest s dest
      match r.error with
      | some _ => r
      | none =>
        let rest := readv r.buffer dests
        { rest with bytes := r.bytes ++ rest.bytes }

def markLoop : Nat → QuicStreamSequencerBuffer → Nat → QuicStreamSequencerBuffer
  | 0, s, _ => s
  | turns + 1, s, bytesToConsume =>
    if bytesToConsume = 0 then s
    else
      let bytesRead := min bytesToConsume s.bytesAvailableInBlock
      markLoop turns (s.consume bytesRead).2 (bytesToConsume - bytesRead)

def markConsumed (bytesConsumed : Nat) : Bool × QuicStreamSequencerBuffer :=
  if s.readableBytes < bytesConsumed then (false, s) else (true, markLoop bytesConsumed s bytesConsumed)

/-! ## Looking -/

def region (blockIndex offset length : Nat) : Option Bytes :=
  (s.block blockIndex).map fun b => b.read offset length

def peekRegion (offset : Nat) : Bool × Option Bytes :=
  if offset < s.totalBytesRead then (false, none)
  else if s.firstMissingByte ≤ offset then (false, none)
  else
    let blockIdx := s.getBlockIndex offset
    let blockOffset := s.getInBlockOffset offset
    let endOffset := s.getInBlockOffset s.firstMissingByte
    let length :=
      if blockIdx = s.getBlockIndex s.firstMissingByte ∧ blockOffset < endOffset then endOffset - blockOffset
      else s.getBlockCapacity blockIdx - blockOffset
    (true, s.region blockIdx blockOffset length)

/-- The whole blocks after the first one, for at most so many turns, and the number of regions used. -/
def wholeBlocks (s : QuicStreamSequencerBuffer) (startBlockIdx endBlockIdx iovLen : Nat) :
    Nat → Nat → List (Option Bytes) × Nat
  | 0, iovUsed => ([], iovUsed)
  | turns + 1, iovUsed =>
    let blockIdx := (startBlockIdx + iovUsed) % s.maxBlocksCount
    if blockIdx ≠ endBlockIdx ∧ iovUsed < iovLen then
      let r := s.wholeBlocks startBlockIdx endBlockIdx iovLen turns (iovUsed + 1)
      (s.region blockIdx 0 (s.getBlockCapacity blockIdx) :: r.1, r.2)
    else ([], iovUsed)

def getReadableRegions (iovLen : Nat) : List (Option Bytes) :=
  if s.readableBytes = 0 then []
  else
    let startBlockIdx := s.nextBlockToRead
    let endBlockOffset := s.getInBlockOffset (s.firstMissingByte - 1)
    let endBlockIdx := s.getBlockIndex (s.firstMissingByte - 1)
    if startBlockIdx = endBlockIdx ∧
      s.readOffset ≤ endBlockOffset then [s.region startBlockIdx s.readOffset s.readableBytes]
    else
      let r := s.wholeBlocks startBlockIdx endBlockIdx iovLen iovLen 1
      s.region startBlockIdx s.readOffset (s.getBlockCapacity startBlockIdx - s.readOffset) ::
        (r.1 ++ if r.2 < iovLen then [s.region endBlockIdx 0 (endBlockOffset + 1)] else [])

end QuicStreamSequencerBuffer

end Quictun
