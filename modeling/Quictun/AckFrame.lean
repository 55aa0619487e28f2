import Quictun.QuicIntervalSet
import Quictun.VarInt62

/-!
# ACK frames on the wire

`QuicFramer` writes the acknowledged packet numbers from the highest down: the length of the
highest range, then for every further range the gap above it and its length. The number of
further ranges stands before them; if the packet has no room for all, those that fit are kept
and the number is written over. Receive timestamps, which no connection turns on, are left out.
-/

namespace Quictun

def kInfiniteTimeUs : Nat := 2 ^ 63 - 1

def kFirstSendingPacketNumber : Nat := 1

def ietfAck : Nat := 0x02
def ietfAckEcn : Nat := 0x03

structure QuicEcnCounts where
  ect0 : Nat
  ect1 : Nat
  ce : Nat
deriving DecidableEq

structure QuicAckFrame where
  largestAcked : Nat
  ackDelayTime : Nat := kInfiniteTimeUs
  packets : QuicIntervalSet Nat
  ecnCounters : Option QuicEcnCounts := none

namespace QuicInterval

def length (i : QuicInterval Nat) : Nat := (if i.empty then i.min else i.max) - i.min

end QuicInterval

namespace QuicheDataWriter

def overwrite (w : QuicheDataWriter) (pos : Nat) (data : Bytes) : QuicheDataWriter :=
  if h : pos + data.length ≤ w.buffer.length then
    { w with
      buffer := w.buffer.take pos ++ data ++ w.buffer.drop (pos + data.length)
      fits := by
        have := w.fits
        simp only [List.length_append, List.length_take, List.length_drop]
        omega }
  else w

end QuicheDataWriter

namespace QuicFramer
open QuicheDataWriter QuicheDataReader

/-! ## Sizes -/

section
variable (f : QuicAckFrame)

def ackEcnCountSize : Nat :=
  match f.ecnCounters with
  | none => 0
  | some c => getVarInt62Len c.ect0 + getVarInt62Len c.ect1 + getVarInt62Len c.ce

def getMinAckFrameSize (e : Nat) (f : QuicAckFrame) : Nat :=
  1 + getVarInt62Len f.largestAcked + getVarInt62Len (f.ackDelayTime >>> e) + getVarInt62Len 0 +
    getVarInt62Len (match f.packets.getLast? with
      | none => 0
      | some i => i.length - 1) +
    ackEcnCountSize f

def ackBlocksSize : Nat → List (QuicInterval Nat) → Nat
  | _, [] => 0
  | previousSmallest, i :: rest =>
    getVarInt62Len (previousSmallest - i.max - 1) + getVarInt62Len (i.length - 1) + ackBlocksSize i.min rest

def getIetfAckFrameSize (e : Nat) (f : QuicAckFrame) : Nat :=
  let size := 1 + getVarInt62Len f.largestAcked + getVarInt62Len (f.ackDelayTime >>> e)
  match f.packets.reverse with
  | [] => size
  | first :: rest =>
    if first.max - 1 ≠ f.largestAcked then size
    else size + getVarInt62Len rest.length + getVarInt62Len (first.length - 1) + ackBlocksSize first.min rest +
      ackEcnCountSize f

def getSerializedFrameLength (e : Nat) (f : QuicAckFrame) (freeBytes : Nat) (firstFrame : Bool) : Nat :=
  if getIetfAckFrameSize e f ≤ freeBytes then getIetfAckFrameSize e f
  else if !firstFrame then 0
  else if getMinAckFrameSize e f ≤ freeBytes then freeBytes
  else 0

/-! ## Writing -/

def ackFrameType : Nat := if f.ecnCounters.isSome then ietfAckEcn else ietfAck

def ackDelayTimeUs (e : Nat) (f : QuicAckFrame) : Nat :=
  if f.ackDelayTime = kInfiniteTimeUs then kVarInt62MaxValue else f.ackDelayTime >>> e

def appendAckBlocks (ecnSize : Nat) : QuicheDataWriter → Nat → List (QuicInterval Nat) → Nat → QuicheDataWriter × Nat
  | w, _, [], appended => (w, appended)
  | w, previousSmallest, i :: rest, appended =>
    let gap := previousSmallest - i.max - 1
    let ackRange := i.length - 1
    if w.remaining < ecnSize ∨ w.remaining - ecnSize < getVarInt62Len gap + getVarInt62Len ackRange then (w, appended)
    else
      -- the outcome of the two writes is only looked at by a DCHECK
      let w := match w.writeVarInt62 gap with
        | none => w
        | some w => (w.writeVarInt62 ackRange).getD w
      appendAckBlocks ecnSize w i.min rest (appended + 1)

def rewriteAckBlockCount (w : QuicheDataWriter) (pos count appended : Nat) : Except String QuicheDataWriter :=
  if appended < count then
    if getVarInt62Len appended ≠ getVarInt62Len count then .error "ACK frame truncation fails"
    else
      match (fresh (getVarInt62Len count)).writeVarInt62 appended with
      | none => .error "ACK frame truncation fails"
      | some countWriter => .ok (w.overwrite pos countWriter.buffer)
  else .ok w

def appendEcnCounts (w : QuicheDataWriter) : Except String QuicheDataWriter :=
  match f.ecnCounters with
  | none => .ok w
  | some c => do
    let w ← w.writeVarInt62OrError c.ect0 "No room for ect_0_count in ack frame"
    let w ← w.writeVarInt62OrError c.ect1 "No room for ect_1_count in ack frame"
    w.writeVarInt62OrError c.ce "No room for ecn_ce_count in ack frame"

end

def appendIetfAckFrameAndTypeByte (e : Nat) (f : QuicAckFrame) (w : QuicheDataWriter) :
    Except String QuicheDataWriter := do
  let w ← w.writeVarInt62OrError (ackFrameType f) "No room for frame-type"
  let w ← w.writeVarInt62OrError f.largestAcked "No room for largest-acked in ack frame"
  let w ← w.writeVarInt62OrError (ackDelayTimeUs e f) "No room for ack-delay in ack frame"
  match f.packets.reverse with
  | [] => .error "Malformed ack frame"
  | first :: rest =>
    if first.max - 1 ≠ f.largestAcked then .error "Malformed ack frame"
    else
      let pos := w.buffer.length
      let w ← w.writeVarInt62OrError rest.length "No room for ack block count in ack frame"
      let w ← w.writeVarInt62OrError (first.length - 1) "No room for first ack block in ack frame"
      let blocks := appendAckBlocks (ackEcnCountSize f) w first.min rest 0
      let w ← rewriteAckBlockCount blocks.1 pos rest.length blocks.2
      appendEcnCounts f w

/-! ## Reading -/

/-- The visitor's answers: to `OnAckFrameStart()`, to `OnAckRange()` after the ranges so far, to `OnAckFrameEnd()`. -/
structure AckVisitor where
  onAckFrameStart : Nat → Nat → Bool
  onAckRange : List (QuicInterval Nat) → Bool
  onAckFrameEnd : Nat → Option QuicEcnCounts → Bool

def AckVisitor.acceptAll : AckVisitor := ⟨fun _ _ => true, fun _ => true, fun _ _ => true⟩

/-- The places where the decoder adds or subtracts 64-bit values. -/
inductive AckArithmetic
  | blockHigh | firstBlockLow | firstBlockCheck | gapCheck | nextBlockHigh | blockCheck | blockLow
deriving DecidableEq

structure AckDecoding where
  started : Option (Nat × Nat) := none
  ranges : List (QuicInterval Nat) := []
  ended : Option (Nat × Option QuicEcnCounts) := none
  result : Except String Bytes
  /-- The operations whose exact result is not a 64-bit value. -/
  wraps : List AckArithmetic := []
deriving DecidableEq

def overflows (op : AckArithmetic) (a b : Nat) : List AckArithmetic := if 2 ^ 64 ≤ a + b then [op] else []

def underflows (op : AckArithmetic) (a b : Nat) : List AckArithmetic := if a < b then [op] else []

def visitorSuppresses : String := "Visitor suppresses further processing of ACK frame."

def processEcnCounts (bytes : Bytes) : Except String (QuicEcnCounts × Bytes) :=
  match readVarInt62 bytes with
  | none => .error "Unable to read ack ect_0_count."
  | some (ect0, bytes) =>
    match readVarInt62 bytes with
    | none => .error "Unable to read ack ect_1_count."
    | some (ect1, bytes) =>
      match readVarInt62 bytes with
      | none => .error "Unable to read ack ecn_ce_count."
      | some (ce, bytes) => .ok (⟨ect0, ect1, ce⟩, bytes)

def finishAckFrame (visitor : AckVisitor) (frameType blockLow : Nat) (d : AckDecoding) (bytes : Bytes) : AckDecoding :=
  match if frameType = ietfAckEcn then (processEcnCounts bytes).map fun r => (some r.1, r.2) else .ok (none, bytes) with
  | .error error => { d with result := .error error }
  | .ok (ecn, bytes) =>
    if visitor.onAckFrameEnd blockLow ecn then { d with ended := some (blockLow, ecn), result := .ok bytes }
    else
      { d with
        ended := some (blockLow, ecn)
        result := .error "Error occurs when visitor finishes processing the ACK frame." }

def processAckBlocks (visitor : AckVisitor) (frameType : Nat) : Nat → Nat → AckDecoding → Bytes → AckDecoding
  | 0, blockLow, d, bytes => finishAckFrame visitor frameType blockLow d bytes
  | ackBlockCount + 1, blockLow, d, bytes =>
    match readVarInt62 bytes with
    | none => { d with result := .error "Unable to read gap block value." }
    | some (gapBlockValue, bytes) =>
      let d := { d with wraps := d.wraps ++ overflows .gapCheck gapBlockValue 2 }
      if blockLow < Word.add gapBlockValue 2 then
        { d with
          result := .error ("Underflow with gap block length " ++ toString (Word.add gapBlockValue 1) ++
            " previous ack block start is " ++ toString blockLow ++ ".") }
      else
        let blockHigh := Word.sub (Word.sub blockLow 1) gapBlockValue
        let d := { d with wraps := d.wraps ++ underflows .nextBlockHigh blockLow (1 + gapBlockValue) }
        match readVarInt62 bytes with
        | none => { d with result := .error "Unable to read ack block value." }
        | some (ackBlockValue, bytes) =>
          let wraps := overflows .blockCheck ackBlockValue kFirstSendingPacketNumber ++
            underflows .blockCheck blockHigh 1
          let d := { d with wraps := d.wraps ++ wraps }
          if Word.sub blockHigh 1 < Word.add ackBlockValue kFirstSendingPacketNumber then
            { d with
              result := .error ("Underflow with ack block length " ++ toString (Word.add ackBlockValue 1) ++
                " latest ack block end is " ++ toString (Word.sub blockHigh 1) ++ ".") }
          else
            let blockLow := Word.sub (Word.sub blockHigh 1) ackBlockValue
            let d := { d with
              wraps := d.wraps ++ underflows .blockLow blockHigh (1 + ackBlockValue)
              ranges := d.ranges ++ [⟨blockLow, blockHigh⟩] }
            if visitor.onAckRange d.ranges then processAckBlocks visitor frameType ackBlockCount blockLow d bytes
            else { d with result := .error visitorSuppresses }

def ackDelayTime (e ackDelayTimeInUs : Nat) : Nat :=
  if kVarInt62MaxValue >>> e ≤ ackDelayTimeInUs then kInfiniteTimeUs else ackDelayTimeInUs <<< e

def processIetfAckFrame (visitor : AckVisitor) (e frameType : Nat) (bytes : Bytes) : AckDecoding :=
  match readVarInt62 bytes with
  | none => { result := .error "Unable to read largest acked." }
  | some (largestAcked, bytes) =>
    if largestAcked < kFirstSendingPacketNumber then { result := .error "Largest acked is 0." }
    else match readVarInt62 bytes with
    | none => { result := .error "Unable to read ack delay time." }
    | some (ackDelayTimeInUs, bytes) =>
      let started := some (largestAcked, ackDelayTime e ackDelayTimeInUs)
      if !visitor.onAckFrameStart largestAcked (ackDelayTime e ackDelayTimeInUs) then
        { started := started, result := .error visitorSuppresses }
      else match readVarInt62 bytes with
      | none => { started := started, result := .error "Unable to read ack block count." }
      | some (ackBlockCount, bytes) =>
        match readVarInt62 bytes with
        | none => { started := started, result := .error "Unable to read first ack block length." }
        | some (ackBlockValue, bytes) =>
          let blockHigh := Word.add largestAcked 1
          let blockLow := Word.sub largestAcked ackBlockValue
          let wraps := overflows .blockHigh largestAcked 1 ++ underflows .firstBlockLow largestAcked ackBlockValue ++
            overflows .firstBlockCheck ackBlockValue kFirstSendingPacketNumber
          if largestAcked < Word.add ackBlockValue kFirstSendingPacketNumber then
            { started := started, wraps := wraps, result :=
                .error ("Underflow with first ack block length " ++ toString (Word.add ackBlockValue 1) ++
                  " largest acked is " ++ toString largestAcked ++ ".") }
          else
            let ranges := [⟨blockLow, blockHigh⟩]
            if visitor.onAckRange ranges then
              processAckBlocks visitor frameType ackBlockCount blockLow
                { started := started, ranges := ranges, wraps := wraps, result := .ok bytes } bytes
            else { started := started, ranges := ranges, wraps := wraps, result := .error visitorSuppresses }

end QuicFramer

end Quictun
