import Quictun.FlatMap
import Quictun.QuicIntervalDeque
import Quictun.QuicIntervalSetOps
import Quictun.VarInt62

/-!
# The send buffer of a stream

`QuicStreamSendBufferInlining` keeps what a stream has to send until it is acknowledged, as a queue of
slices in stream order. A slice of at most 15 bytes is stored in its entry; a longer one is pointed to
while `owned_slices_` holds it. A slice that is acknowledged as a whole is emptied in place, and leaves
the queue once everything before it has. `slices` is the history of what was saved.
-/

namespace Quictun

def kSendBufferMaxInlinedSize : Nat := 15

/-- `QuicInlinedStringView`: the bytes themselves, or the address of so many bytes. -/
inductive InlinedStringView
  | inlined (data : Bytes)
  | pointer (size : Nat)
deriving DecidableEq

namespace InlinedStringView

def size : InlinedStringView → Nat
  | inlined data => data.length
  | pointer size => size

def isInlined : InlinedStringView → Bool
  | inlined _ => true
  | pointer _ => false

def of (data : Bytes) : InlinedStringView :=
  if data.length ≤ kSendBufferMaxInlinedSize then inlined data else pointer data.length

def cleared : InlinedStringView := inlined []

end InlinedStringView

structure BufferedSliceInlining where
  slice : InlinedStringView
  offset : Nat
deriving DecidableEq

namespace BufferedSliceInlining

variable (t : BufferedSliceInlining)

def interval : QuicInterval Nat := ⟨t.offset, t.offset + t.slice.size⟩

def endsBefore (offset : Nat) : Bool := t.offset + t.slice.size < offset

def data (t : BufferedSliceInlining) (owned : FlatMap Nat Bytes) : Bytes :=
  match t.slice with
  | .inlined data => data
  | .pointer _ => (owned.lookup t.offset).getD []

end BufferedSliceInlining

structure StreamPendingRetransmission where
  offset : Nat
  length : Nat
deriving DecidableEq

structure QuicStreamSendBufferInlining where
  streamBytesWritten : Nat := 0
  streamBytesOutstanding : Nat := 0
  bytesAcked : QuicIntervalSet Nat := []
  pendingRetransmissions : QuicIntervalSet Nat := []
  intervalDeque : QuicIntervalDeque BufferedSliceInlining := {}
  streamOffset : Nat := 0
  ownedSlices : FlatMap Nat Bytes := ∅
  slices : List (Nat × Bytes) := []

namespace QuicStreamSendBufferInlining

open QuicIntervalSet BufferedSliceInlining

/-! ## Saving -/

variable (s : QuicStreamSendBufferInlining)

def saveMemSlice (slice : Bytes) : QuicStreamSendBufferInlining :=
  if slice = [] then s
  else
    { s with
      intervalDeque := s.intervalDeque.pushBack interval ⟨.of slice, s.streamOffset⟩
      ownedSlices :=
        if slice.length ≤ kSendBufferMaxInlinedSize then s.ownedSlices else s.ownedSlices.emplace s.streamOffset slice
      streamOffset := s.streamOffset + slice.length
      slices := s.slices ++ [(s.streamOffset, slice)] }

/-- The loop of `SaveStreamData()`; there are at most as many turns as bytes. -/
def saveChunks (maxDataSliceSize : Nat) : Nat → QuicStreamSendBufferInlining → Bytes → QuicStreamSendBufferInlining
  | 0, s, _ => s
  | fuel + 1, s, data =>
    if data = [] then s
    else saveChunks maxDataSliceSize fuel (s.saveMemSlice (data.take maxDataSliceSize)) (data.drop maxDataSliceSize)

/-- `maxDataSliceSize` is the flag `quic_send_buffer_max_data_slice_size`. -/
def saveStreamData (maxDataSliceSize : Nat) (s : QuicStreamSendBufferInlining) (data : Bytes) :
    QuicStreamSendBufferInlining :=
  if data.length ≤ kSendBufferMaxInlinedSize then s.saveMemSlice data
  else saveChunks maxDataSliceSize data.length s data

def saveMemSliceSpan (span : List Bytes) : Nat × QuicStreamSendBufferInlining :=
  span.foldl (fun r slice => if slice = [] then r else (r.1 + slice.length, r.2.saveMemSlice slice)) (0, s)

def onStreamDataConsumed (bytesConsumed : Nat) : QuicStreamSendBufferInlining :=
  { s with
    streamBytesWritten := s.streamBytesWritten + bytesConsumed
    streamBytesOutstanding := s.streamBytesOutstanding + bytesConsumed }

/-! ## Acknowledging -/

/-- The loop of `FreeMemSlices()` from an iterator on: the entries, the owners, and how often the
iterator was incremented. -/
def freeSlices (acked : QuicIntervalSet Nat) (stop : Nat) :
    List BufferedSliceInlining → FlatMap Nat Bytes → List BufferedSliceInlining × FlatMap Nat Bytes × Nat
  | [], owned => ([], owned, 0)
  | t :: rest, owned =>
    if stop ≤ t.offset then (t :: rest, owned, 0)
    else if t.slice.size ≠ 0 ∧ acked.containsInterval t.interval = true then
      -- `ClearSlice()`
      let r := freeSlices acked stop rest (if t.slice.isInlined then owned else owned.erase t.offset)
      ({ t with slice := .cleared } :: r.1, r.2.1, r.2.2 + 1)
    else
      let r := freeSlices acked stop rest owned
      (t :: r.1, r.2.1, r.2.2 + 1)

def advance (d : QuicIntervalDeque BufferedSliceInlining) (index count : Nat) :
    QuicIntervalDeque BufferedSliceInlining :=
  (List.range' index count).foldl (fun d i => d.increment i) d

/-- The iterator `FreeMemSlices()` starts at. `std::lower_bound` may increment iterators while it
searches; `probes` are the indices at which it does. -/
def firstAcked (first : BufferedSliceInlining) (start : Nat) (probes : List Nat) :
    Nat × QuicIntervalDeque BufferedSliceInlining :=
  if first.interval.contains start then (0, s.intervalDeque)
  else
    (BinarySearch.lowerBound (fun i => s.intervalDeque.container[i]?.all fun t => t.endsBefore start) 0
      s.intervalDeque.size,
      probes.foldl (fun d i => d.increment i) s.intervalDeque)

def freeMemSlices (start stop : Nat) (probes : List Nat) :
    Bool × QuicStreamSendBufferInlining :=
  match s.intervalDeque.container with
  | [] => (false, s)
  | first :: _ =>
    if first.slice.size = 0 then (false, s)
    else
      let it := s.firstAcked first start probes
      let s := { s with intervalDeque := it.2 }
      match s.intervalDeque.container[it.1]? with
      | none => (false, s)
      | some t =>
        if t.slice.size = 0 then (false, s)
        else
          let r := freeSlices s.bytesAcked stop (s.intervalDeque.container.drop it.1) s.ownedSlices
          let d := advance s.intervalDeque it.1 r.2.2
          (true, { s with
            intervalDeque := { d with container := d.container.take it.1 ++ r.1 }
            ownedSlices := r.2.1 })

def popEmpty : Nat → QuicIntervalDeque BufferedSliceInlining → QuicIntervalDeque BufferedSliceInlining
  | 0, d => d
  | fuel + 1, d => if d.container.head?.any (fun t => t.slice.size = 0) then popEmpty fuel d.popFront else d

def cleanUpBufferedSlices : QuicStreamSendBufferInlining :=
  { s with intervalDeque := popEmpty s.intervalDeque.size s.intervalDeque }

def freeAndCleanUp (start stop newlyAcked : Nat) (probes : List Nat) :
    Bool × Nat × QuicStreamSendBufferInlining :=
  let r := s.freeMemSlices start stop probes
  if r.1 then (true, newlyAcked, r.2.cleanUpBufferedSlices) else (false, newlyAcked, r.2)

def totalLength (s : QuicIntervalSet Nat) : Nat := s.foldl (fun n i => n + (i.max - i.min)) 0

def allNew (range : QuicInterval Nat) : Bool :=
  s.bytesAcked.getLast?.all (fun last => last.max ≤ range.min) || s.bytesAcked.isDisjoint range

/-- With `*newly_acked_length`. `enabled` is the flag of `AddOptimizedForAppend()`. -/
def onStreamDataAcked (enabled : Bool) (s : QuicStreamSendBufferInlining) (offset dataLength : Nat)
    (probes : List Nat) :
    Bool × Nat × QuicStreamSendBufferInlining :=
  let range : QuicInterval Nat := ⟨offset, offset + dataLength⟩
  if dataLength = 0 then (true, 0, s)
  else if s.allNew range then
    if s.streamBytesOutstanding < dataLength then (false, 0, s)
    else
      { s with
        bytesAcked := s.bytesAcked.addOptimizedForAppend enabled range
        streamBytesOutstanding := s.streamBytesOutstanding - dataLength
        pendingRetransmissions := s.pendingRetransmissions.differenceInterval range }.freeAndCleanUp
          range.min range.max dataLength probes
  else if s.bytesAcked.containsInterval range then (true, 0, s)
  else
    let newlyAcked := (QuicIntervalSet.add [] range).difference s.bytesAcked
    let newlyAckedLength := totalLength newlyAcked
    if s.streamBytesOutstanding < newlyAckedLength then (false, newlyAckedLength, s)
    else
      let s := { s with
        streamBytesOutstanding := s.streamBytesOutstanding - newlyAckedLength
        bytesAcked := s.bytesAcked.add range
        pendingRetransmissions := s.pendingRetransmissions.differenceInterval range }
      match newlyAcked.head?, newlyAcked.getLast? with
      | some first, some last => s.freeAndCleanUp first.min last.max newlyAckedLength probes
      | _, _ => (true, newlyAckedLength, s)

/-! ## Losing -/

def onStreamDataLost (offset dataLength : Nat) : QuicStreamSendBufferInlining :=
  if dataLength = 0 then s
  else
    let bytesLost := (QuicIntervalSet.add [] ⟨offset, offset + dataLength⟩).difference s.bytesAcked
    { s with pendingRetransmissions := bytesLost.foldl QuicIntervalSet.add s.pendingRetransmissions }

def onStreamDataRetransmitted (offset dataLength : Nat) : QuicStreamSendBufferInlining :=
  if dataLength = 0 then s
  else
    { s with pendingRetransmissions := s.pendingRetransmissions.differenceInterval ⟨offset, offset + dataLength⟩ }

def hasPendingRetransmission : Bool := !s.pendingRetransmissions.isEmpty

def nextPendingRetransmission : StreamPendingRetransmission :=
  match s.pendingRetransmissions with
  | pending :: _ => ⟨pending.min, pending.max - pending.min⟩
  | [] => ⟨0, 0⟩

/-! ## Writing -/

/-- The loop of `WriteStreamData()` from an iterator on, with how often it was incremented. -/
def writeSlices (owned : FlatMap Nat Bytes) :
    List BufferedSliceInlining → Nat → Nat → QuicheDataWriter → Bool × QuicheDataWriter × Nat
  | [], _, dataLength, w => (dataLength = 0, w, 0)
  | t :: rest, offset, dataLength, w =>
    if dataLength = 0 ∨ offset < t.offset then (dataLength = 0, w, 0)
    else
      let sliceOffset := offset - t.offset
      let copyLength := min dataLength (t.slice.size - sliceOffset)
      match w.writeBytes (((t.data owned).drop sliceOffset).take copyLength) with
      | none => (false, w, 0)
      | some w =>
        let r := writeSlices owned rest (offset + copyLength) (dataLength - copyLength) w
        (r.1, r.2.1, r.2.2 + 1)

def writeStreamData (offset dataLength : Nat) (w : QuicheDataWriter) :
    Bool × QuicheDataWriter × QuicStreamSendBufferInlining :=
  let it := s.intervalDeque.dataAt interval offset
  let r := writeSlices s.ownedSlices (it.2.container.drop it.1) offset dataLength w
  (r.1, r.2.1, { s with intervalDeque := advance it.2 it.1 r.2.2 })

end QuicStreamSendBufferInlining

end Quictun
