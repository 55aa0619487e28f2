import Mathlib.Algebra.Order.Ring.Nat
import Mathlib.Data.List.Forall2

/-!
# Aggregation of acknowledged STREAM frames

`MaybeAggregateAckedStreamFrame()` holds back an acknowledged STREAM frame as long as the next ones
continue it, and notifies the session of the whole. Each notification is compared with the group of
frames it stands for (`Covers`): one frame, or contiguous STREAM frames of one stream whose lengths
add up without wrapping around. The stream id 2^32 - 1 stands for no frame.
-/

namespace Quictun

open List

namespace FrameAggregation

variable {α : Type*}

/-- A `QuicStreamFrame` but for the data, which an acknowledgement does not look at. -/
structure StreamFrame where
  streamId : UInt32
  fin : Bool
  offset : UInt64
  dataLength : UInt16
deriving DecidableEq

def invalidStreamId : UInt32 := 0xffffffff

/-- `α` is the type of all other frames. -/
inductive QuicFrame (α : Type*) where
  | stream (frame : StreamFrame)
  | other (frame : α)
deriving DecidableEq

structure Notice (α : Type*) where
  frame : QuicFrame α
  ackDelay : Int
  receiveTimestamp : Nat
  isRetransmission : Bool
deriving DecidableEq

structure AckedPacket (α : Type*) where
  isRetransmission : Bool
  ackDelay : Int
  receiveTimestamp : Nat
  retransmittableFrames : List (QuicFrame α)

/-- The frame held back, and what the session has been notified of. -/
structure Aggregator (α : Type*) where
  aggregatedStreamFrame : StreamFrame := { streamId := invalidStreamId, fin := false, offset := 0, dataLength := 0 }
  notices : List (Notice α) := []

def willStreamFrameLengthSumWrapAround (lhs rhs : UInt16) : Bool := 0xffff - lhs.toNat < rhs.toNat

def canAggregate (aggregated frame : StreamFrame) : Bool :=
  frame.streamId = aggregated.streamId && frame.offset = aggregated.offset + aggregated.dataLength.toUInt64 &&
    !willStreamFrameLengthSumWrapAround aggregated.dataLength frame.dataLength

namespace Aggregator

variable (m : Aggregator α)

def onFrameAcked (notice : Notice α) : Aggregator α := { m with notices := m.notices ++ [notice] }

def notifyAggregatedStreamFrameAcked (ackDelay : Int) : Aggregator α :=
  if m.aggregatedStreamFrame.streamId = invalidStreamId then m
  else
    let m := m.onFrameAcked ⟨.stream m.aggregatedStreamFrame, ackDelay, 0, false⟩
    { m with aggregatedStreamFrame := { m.aggregatedStreamFrame with streamId := invalidStreamId } }

def aggregateFrame (ackDelay : Int) (receiveTimestamp : Nat) : QuicFrame α → Aggregator α
  | .stream frame =>
    let aggregated := m.aggregatedStreamFrame
    if canAggregate aggregated frame then
      let m := { m with aggregatedStreamFrame :=
        { aggregated with dataLength := aggregated.dataLength + frame.dataLength, fin := frame.fin } }
      if frame.fin then m.notifyAggregatedStreamFrameAcked ackDelay else m
    else
      let m := m.notifyAggregatedStreamFrameAcked ackDelay
      if frame.fin then m.onFrameAcked ⟨.stream frame, ackDelay, receiveTimestamp, false⟩
      else { m with aggregatedStreamFrame := frame }
  | .other frame =>
    (m.notifyAggregatedStreamFrameAcked ackDelay).onFrameAcked ⟨.other frame, ackDelay, receiveTimestamp, false⟩

def maybeAggregateAckedStreamFrame (packet : AckedPacket α) : Aggregator α :=
  packet.retransmittableFrames.foldl (fun m frame => m.aggregateFrame packet.ackDelay packet.receiveTimestamp frame) m

def notifyFramesAcked (packet : AckedPacket α) : Aggregator α :=
  packet.retransmittableFrames.foldl
    (fun m frame => m.onFrameAcked ⟨frame, packet.ackDelay, packet.receiveTimestamp, packet.isRetransmission⟩) m

/-- What `MarkPacketHandled()` notifies the session of: retransmissions are not aggregated. -/
def markPacketHandled (packet : AckedPacket α) : Aggregator α :=
  if packet.isRetransmission then (m.notifyAggregatedStreamFrameAcked packet.ackDelay).notifyFramesAcked packet
  else m.maybeAggregateAckedStreamFrame packet

end Aggregator

def delivered (packets : List (AckedPacket α)) (ackDelay : Int) : List (Notice α) :=
  ((packets.foldl Aggregator.markPacketHandled {}).notifyAggregatedStreamFrameAcked ackDelay).notices

/-! ## Frame by frame -/

def AckedPacket.notices (packet : AckedPacket α) : List (Notice α) :=
  packet.retransmittableFrames.map
    fun frame => ⟨frame, packet.ackDelay, packet.receiveTimestamp, packet.isRetransmission⟩

def individual (packets : List (AckedPacket α)) : List (Notice α) := packets.flatMap AckedPacket.notices

def StreamFrame.bytes (frame : StreamFrame) : List UInt64 :=
  (List.range frame.dataLength.toNat).map fun k => frame.offset + UInt64.ofNat k

def QuicFrame.bytes (id : UInt32) : QuicFrame α → List UInt64
  | .stream frame => if frame.streamId = id then frame.bytes else []
  | .other _ => []

def QuicFrame.fins (id : UInt32) : QuicFrame α → List UInt64
  | .stream frame => if frame.streamId = id ∧ frame.fin = true then [frame.offset + frame.dataLength.toUInt64] else []
  | .other _ => []

def QuicFrame.length : QuicFrame α → Nat
  | .stream frame => frame.dataLength.toNat
  | .other _ => 0

def QuicFrame.isStream : QuicFrame α → Bool
  | .stream _ => true
  | .other _ => false

def ackedBytes (id : UInt32) (notices : List (Notice α)) : List UInt64 := notices.flatMap fun n => n.frame.bytes id

def ackedFins (id : UInt32) (notices : List (Notice α)) : List UInt64 := notices.flatMap fun n => n.frame.fins id

def otherFrames (notices : List (Notice α)) : List (Notice α) := notices.filter fun n => !n.frame.isStream

def totalLength (notices : List (Notice α)) : Nat := (notices.map fun n => n.frame.length).sum

/-! ## Groups of frames -/

def StreamFrame.extend (sum next : StreamFrame) : StreamFrame :=
  { sum with dataLength := sum.dataLength + next.dataLength, fin := next.fin }

structure Continues (sum next : StreamFrame) : Prop where
  unfinished : sum.fin = false
  streamId : next.streamId = sum.streamId
  offset : next.offset = sum.offset + sum.dataLength.toUInt64
  fits : sum.dataLength.toNat + next.dataLength.toNat < 2 ^ 16

variable {sum next : StreamFrame}

theorem Continues.toNat_dataLength (h : Continues sum next) :
    (sum.extend next).dataLength.toNat = sum.dataLength.toNat + next.dataLength.toNat := by
  change (sum.dataLength + next.dataLength).toNat = _
  rw [UInt16.toNat_add, Nat.mod_eq_of_lt h.fits]

theorem Continues.end_eq (h : Continues sum next) :
    (sum.extend next).offset + (sum.extend next).dataLength.toUInt64 = next.offset + next.dataLength.toUInt64 := by
  have hlen : (sum.extend next).dataLength.toUInt64 = sum.dataLength.toUInt64 + next.dataLength.toUInt64 := by
    apply UInt64.toNat.inj
    rw [UInt16.toNat_toUInt64, h.toNat_dataLength, UInt64.toNat_add, UInt16.toNat_toUInt64, UInt16.toNat_toUInt64]
    have := h.fits
    omega
  rw [hlen, ← UInt64.add_assoc, h.offset]
  rfl

theorem continues_of_canAggregate (hf : sum.fin = false) (h : canAggregate sum next = true) : Continues sum next := by
  unfold canAggregate willStreamFrameLengthSumWrapAround at h
  simp only [Bool.and_eq_true, decide_eq_true_eq, Bool.not_eq_true', decide_eq_false_iff_not] at h
  obtain ⟨⟨hid, hoff⟩, hlen⟩ := h
  have := sum.dataLength.toNat_lt
  exact ⟨hf, hid, hoff, by omega⟩

inductive Spans : StreamFrame → List StreamFrame → Prop where
  | single (frame : StreamFrame) : Spans frame [frame]
  | extend {sum next : StreamFrame} {frames : List StreamFrame} (h : Spans sum frames) (hc : Continues sum next) :
      Spans (sum.extend next) (frames ++ [next])

inductive Covers : Notice α → List (Notice α) → Prop where
  | alone (notice : Notice α) : Covers notice [notice]
  | spans {notice : Notice α} {sum : StreamFrame} {group : List (Notice α)} {frames : List StreamFrame}
      (hn : notice.frame = .stream sum) (hg : group.map Notice.frame = frames.map QuicFrame.stream)
        (h : Spans sum frames) :
      Covers notice group

theorem Spans.flatMap {β : Type*} {f : StreamFrame → List β} {sum : StreamFrame} {frames : List StreamFrame}
    (hf : ∀ sum next, Continues sum next → f (sum.extend next) = f sum ++ f next) (h : Spans sum frames) :
    f sum = frames.flatMap f := by
  induction h with
  | single frame => simp
  | extend h hc ih => rw [hf _ _ hc, ih, flatMap_append, flatMap_singleton]

theorem Covers.flatMap {β : Type*} {f : QuicFrame α → List β} {n : Notice α} {g : List (Notice α)}
    (hf : ∀ sum next, Continues sum next → f (.stream (sum.extend next)) = f (.stream sum) ++ f (.stream next))
    (h : Covers n g) :
    f n.frame = g.flatMap fun n => f n.frame := by
  cases h with
  | alone => simp
  | spans hn hg h =>
    have hmap : g.flatMap (fun n => f n.frame) = (g.map Notice.frame).flatMap f := by rw [flatMap_map]
    rw [hmap, hg, hn, flatMap_map]
    exact h.flatMap (f := fun frame => f (.stream frame)) hf

variable {ns : List (Notice α)} {gs : List (List (Notice α))}

theorem flatMap_eq_of_covers {β : Type*} {f : Notice α → List β} (hf : ∀ n g, Covers n g → f n = g.flatMap f)
    (h : List.Forall₂ Covers ns gs) : ns.flatMap f = gs.flatten.flatMap f := by
  induction h with
  | nil => rfl
  | cons hc _ ih => rw [flatMap_cons, flatten_cons, flatMap_append, hf _ _ hc, ih]

theorem bytes_extend (h : Continues sum next) : (sum.extend next).bytes = sum.bytes ++ next.bytes := by
  have hoff : ∀ k, sum.offset + UInt64.ofNat (sum.dataLength.toNat + k) = next.offset + UInt64.ofNat k := by
    intro k
    rw [h.offset, UInt64.ofNat_add, ← UInt64.add_assoc, UInt64.ofNat_uInt16ToNat]
  unfold StreamFrame.bytes
  rw [h.toNat_dataLength, range_add, map_append, map_map]
  exact congrArg _ (map_congr_left fun k _ => hoff k)

variable {n : Notice α} {g : List (Notice α)}

theorem ackedBytes_of_covers (id : UInt32) (h : Covers n g) : n.frame.bytes id = g.flatMap fun n =>
    n.frame.bytes id := by
  refine h.flatMap fun sum next hc => ?_
  have hid : (sum.extend next).streamId = sum.streamId := rfl
  simp only [QuicFrame.bytes, hid, hc.streamId]
  split
  · exact bytes_extend hc
  · rfl

theorem ackedFins_of_covers (id : UInt32) (h : Covers n g) : n.frame.fins id = g.flatMap fun n => n.frame.fins id := by
  refine h.flatMap fun sum next hc => ?_
  have hid : (sum.extend next).streamId = sum.streamId := rfl
  have hfin : (sum.extend next).fin = next.fin := rfl
  simp [QuicFrame.fins, hid, hfin, hc.end_eq, hc.streamId, hc.unfinished]

theorem otherFrames_of_covers (h : Covers n g) :
    (if n.frame.isStream then [] else [n]) = g.flatMap fun n => if n.frame.isStream then [] else [n] := by
  cases h with
  | alone => simp
  | spans hn hg h =>
    have hnil : (if n.frame.isStream then [] else [n]) = [] := by
      rw [hn]
      rfl
    symm
    rw [hnil, flatMap_eq_nil_iff]
    intro x hx
    have hmem : x.frame ∈ g.map Notice.frame := mem_map_of_mem hx
    rw [hg] at hmem
    obtain ⟨frame, -, hframe⟩ := mem_map.1 hmem
    rw [← hframe]
    rfl

theorem Spans.dataLength_eq {frames : List StreamFrame} (h : Spans sum frames) :
    sum.dataLength.toNat = (frames.map fun frame => frame.dataLength.toNat).sum := by
  induction h with
  | single frame => simp
  | extend h hc ih => rw [hc.toNat_dataLength, ih, map_append, sum_append, map_singleton, sum_singleton]

theorem length_of_covers (h : Covers n g) : n.frame.length = totalLength g := by
  cases h with
  | alone => simp [totalLength]
  | spans hn hg h =>
    have hmap : totalLength g = ((g.map Notice.frame).map QuicFrame.length).sum := by
      rw [totalLength, map_map]
      rfl
    rw [hmap, hg, hn, map_map]
    exact h.dataLength_eq

theorem lengths_of_covers (h : List.Forall₂ Covers ns gs) : ns.map (fun n => n.frame.length) = gs.map totalLength := by
  induction h with
  | nil => rfl
  | cons hc _ ih => rw [map_cons, map_cons, length_of_covers hc, ih]

theorem otherFrames_eq_flatMap (ns : List (Notice α)) :
    otherFrames ns = ns.flatMap fun n => if n.frame.isStream then [] else [n] := by
  induction ns with
  | nil => rfl
  | cons n ns ih =>
    rw [flatMap_cons, ← ih, otherFrames, otherFrames, filter_cons]
    cases n.frame.isStream <;> rfl

/-! ## The accumulator -/

/-- What has been seen is what the session was notified of, and then the frame held back. -/
structure Tracks (m : Aggregator α) (seen : List (Notice α)) : Prop where
  split : ∃ groups pending, seen = groups.flatten ++ pending ∧ List.Forall₂ Covers m.notices groups ∧
    (m.aggregatedStreamFrame.streamId = invalidStreamId → pending = []) ∧
    (m.aggregatedStreamFrame.streamId ≠ invalidStreamId →
      ∃ frames, pending.map Notice.frame = frames.map QuicFrame.stream ∧ Spans m.aggregatedStreamFrame frames)

structure Open (m : Aggregator α) (seen : List (Notice α)) : Prop extends Tracks m seen where
  unfinished : m.aggregatedStreamFrame.streamId ≠ invalidStreamId → m.aggregatedStreamFrame.fin = false

variable {m : Aggregator α} {seen : List (Notice α)}

theorem streamId_notifyAggregated (m : Aggregator α) (ackDelay : Int) :
    (m.notifyAggregatedStreamFrameAcked ackDelay).aggregatedStreamFrame.streamId = invalidStreamId := by
  unfold Aggregator.notifyAggregatedStreamFrameAcked
  split
  · assumption
  · rfl

theorem Tracks.notifyAggregated (h : Tracks m seen) (ackDelay : Int) :
    Open (m.notifyAggregatedStreamFrameAcked ackDelay) seen := by
  refine ⟨⟨?_⟩, fun hne => absurd (streamId_notifyAggregated m ackDelay) hne⟩
  obtain ⟨groups, pending, hseen, hg, hnone, hsome⟩ := h.split
  by_cases hid : m.aggregatedStreamFrame.streamId = invalidStreamId
  · rw [Aggregator.notifyAggregatedStreamFrameAcked, if_pos hid]
    exact ⟨groups, pending, hseen, hg, hnone, hsome⟩
  · obtain ⟨frames, hp, hs⟩ := hsome hid
    rw [Aggregator.notifyAggregatedStreamFrameAcked, if_neg hid]
    refine ⟨groups ++ [pending], [], ?_, ?_, fun _ => rfl, fun hne => absurd rfl hne⟩
    · rw [hseen, flatten_append, flatten_singleton, append_nil]
    · exact rel_append hg (List.Forall₂.cons (.spans rfl hp hs) List.Forall₂.nil)

theorem Tracks.onFrameAcked (h : Tracks m seen) (hid : m.aggregatedStreamFrame.streamId = invalidStreamId)
    (n : Notice α) :
    Open (m.onFrameAcked n) (seen ++ [n]) := by
  refine ⟨⟨?_⟩, fun hne => absurd hid hne⟩
  obtain ⟨groups, pending, hseen, hg, hnone, -⟩ := h.split
  refine ⟨groups ++ [[n]], [], ?_, ?_, fun _ => rfl, fun hne => absurd hid hne⟩
  · rw [hseen, hnone hid, append_nil, flatten_append, flatten_singleton, append_nil]
  · exact rel_append hg (List.Forall₂.cons (.alone n) List.Forall₂.nil)

theorem Tracks.start (h : Tracks m seen) (hid : m.aggregatedStreamFrame.streamId = invalidStreamId)
    {frame : StreamFrame} (hn : n.frame = .stream frame) (hf : frame.fin = false)
    (hv : frame.streamId ≠ invalidStreamId) :
    Open { m with aggregatedStreamFrame := frame } (seen ++ [n]) := by
  refine ⟨⟨?_⟩, fun _ => hf⟩
  obtain ⟨groups, pending, hseen, hg, hnone, -⟩ := h.split
  refine ⟨groups, [n], ?_, hg, fun he => absurd he hv, fun _ => ⟨[frame], ?_, .single frame⟩⟩
  · rw [hseen, hnone hid, append_nil]
  · rw [map_singleton, map_singleton, hn]

theorem Open.extend (h : Open m seen) {n : Notice α} {frame : StreamFrame} (hn : n.frame = .stream frame)
    (hv : frame.streamId ≠ invalidStreamId) (hc : canAggregate m.aggregatedStreamFrame frame = true) :
    Tracks { m with aggregatedStreamFrame := m.aggregatedStreamFrame.extend frame } (seen ++ [n]) := by
  have hid : frame.streamId = m.aggregatedStreamFrame.streamId := by
    simp only [canAggregate, Bool.and_eq_true, decide_eq_true_eq] at hc
    exact hc.1.1
  rw [hid] at hv
  obtain ⟨groups, pending, hseen, hg, -, hsome⟩ := h.split
  obtain ⟨frames, hp, hs⟩ := hsome hv
  refine ⟨groups, pending ++ [n], ?_, hg, fun he => absurd he hv, fun _ => ⟨frames ++ [frame], ?_, ?_⟩⟩
  · rw [hseen, append_assoc]
  · rw [map_append, map_append, hp, map_singleton, map_singleton, hn]
  · exact hs.extend (continues_of_canAggregate (h.unfinished hv) hc)

theorem Open.aggregateFrame (h : Open m seen) (ackDelay : Int) (receiveTimestamp : Nat) {frame : QuicFrame α}
    (hv : ∀ f, frame = .stream f → f.streamId ≠ invalidStreamId) :
    Open (m.aggregateFrame ackDelay receiveTimestamp frame) (seen ++ [⟨frame, ackDelay, receiveTimestamp, false⟩]) := by
  have hflush := h.notifyAggregated ackDelay
  have hid := streamId_notifyAggregated m ackDelay
  cases frame with
  | other frame => exact hflush.onFrameAcked hid _
  | stream frame =>
    have hne := hv frame rfl
    unfold Aggregator.aggregateFrame
    dsimp only
    split
    next hc =>
      have hext := h.extend (n := ⟨.stream frame, ackDelay, receiveTimestamp, false⟩) rfl hne hc
      split
      · exact hext.notifyAggregated ackDelay
      next hf => exact ⟨hext, fun _ => Bool.eq_false_iff.2 hf⟩
    · split
      · exact hflush.onFrameAcked hid _
      next hf => exact hflush.start hid rfl (Bool.eq_false_iff.2 hf) hne

theorem Open.maybeAggregate (packet : AckedPacket α) (hr : packet.isRetransmission = false) (h : Open m seen)
    (hv : ∀ f, .stream f ∈ packet.retransmittableFrames → f.streamId ≠ invalidStreamId) :
    Open (m.maybeAggregateAckedStreamFrame packet) (seen ++ packet.notices) := by
  unfold Aggregator.maybeAggregateAckedStreamFrame AckedPacket.notices
  rw [hr]
  generalize packet.retransmittableFrames = frames at hv
  induction frames generalizing m seen with
  | nil => rwa [map_nil, append_nil]
  | cons frame frames ih =>
    have hstep := h.aggregateFrame packet.ackDelay packet.receiveTimestamp fun f hf => hv f (hf ▸ mem_cons_self)
    have hrest := ih hstep fun f hf => hv f (mem_cons_of_mem _ hf)
    rwa [append_assoc] at hrest

theorem Open.notifyFramesAcked (packet : AckedPacket α) (h : Open m seen)
    (hid : m.aggregatedStreamFrame.streamId = invalidStreamId) :
    Open (m.notifyFramesAcked packet) (seen ++ packet.notices) := by
  unfold Aggregator.notifyFramesAcked AckedPacket.notices
  generalize packet.retransmittableFrames = frames
  induction frames generalizing m seen with
  | nil => rwa [map_nil, append_nil]
  | cons frame frames ih =>
    have hstep := h.onFrameAcked hid ⟨frame, packet.ackDelay, packet.receiveTimestamp, packet.isRetransmission⟩
    have hrest := ih hstep hid
    rwa [append_assoc] at hrest

theorem Open.markPacketHandled (packet : AckedPacket α) (h : Open m seen)
    (hv : ∀ f, .stream f ∈ packet.retransmittableFrames → f.streamId ≠ invalidStreamId) :
    Open (m.markPacketHandled packet) (seen ++ packet.notices) := by
  unfold Aggregator.markPacketHandled
  split
  · exact (h.notifyAggregated _).notifyFramesAcked packet (streamId_notifyAggregated m _)
  next hr => exact h.maybeAggregate packet (Bool.eq_false_iff.2 hr) hv

variable {packets : List (AckedPacket α)}

theorem Open.run (h : Open m seen)
    (hv : ∀ p ∈ packets, ∀ f, .stream f ∈ p.retransmittableFrames → f.streamId ≠ invalidStreamId) :
    Open (packets.foldl Aggregator.markPacketHandled m) (seen ++ individual packets) := by
  induction packets generalizing m seen with
  | nil => rwa [individual, flatMap_nil, append_nil]
  | cons packet packets ih =>
    have hrest := ih (h.markPacketHandled packet (hv packet mem_cons_self)) fun p hp => hv p (mem_cons_of_mem _ hp)
    rwa [append_assoc] at hrest

theorem open_fresh : Open ({} : Aggregator α) [] :=
  ⟨⟨[], [], rfl, List.Forall₂.nil, fun _ => rfl, fun hne => absurd rfl hne⟩, fun hne => absurd rfl hne⟩

theorem exists_groups
    (hv : ∀ p ∈ packets, ∀ f, .stream f ∈ p.retransmittableFrames → f.streamId ≠ invalidStreamId) (ackDelay : Int) :
    ∃ groups : List (List (Notice α)), groups.flatten = individual packets ∧
      List.Forall₂ Covers (delivered packets ackDelay) groups := by
  have hend := (open_fresh.run hv).notifyAggregated ackDelay
  obtain ⟨groups, pending, hseen, hg, hnone, -⟩ := hend.split
  rw [hnone (streamId_notifyAggregated _ _), append_nil, nil_append] at hseen
  exact ⟨groups, hseen.symm, hg⟩

/-- **Aggregation is transparent.** The session learns of the same bytes and the same ends of streams, in the same
order, as if it were notified of each frame; of all other frames it is notified one by one. -/
theorem aggregation_transparent {packets : List (AckedPacket α)}
    (hv : ∀ p ∈ packets, ∀ f, .stream f ∈ p.retransmittableFrames → f.streamId ≠ invalidStreamId) (ackDelay : Int) :
    (∀ id, ackedBytes id (delivered packets ackDelay) = ackedBytes id (individual packets)) ∧
    (∀ id, ackedFins id (delivered packets ackDelay) = ackedFins id (individual packets)) ∧
    otherFrames (delivered packets ackDelay) = otherFrames (individual packets) ∧
    ∃ groups : List (List (Notice α)), groups.flatten = individual packets ∧
      (delivered packets ackDelay).map (fun n => n.frame.length) = groups.map totalLength := by
  obtain ⟨groups, hflat, hg⟩ := exists_groups hv ackDelay
  refine ⟨fun id => ?_, fun id => ?_, ?_, groups, hflat, ?_⟩
  · rw [← hflat]
    exact flatMap_eq_of_covers (fun _ _ => ackedBytes_of_covers id) hg
  · rw [← hflat]
    exact flatMap_eq_of_covers (fun _ _ => ackedFins_of_covers id) hg
  · rw [← hflat, otherFrames_eq_flatMap, otherFrames_eq_flatMap]
    exact flatMap_eq_of_covers (fun _ _ => otherFrames_of_covers) hg
  · exact lengths_of_covers hg

def twoPackets : List (AckedPacket Nat) :=
  [{ isRetransmission := false, ackDelay := 5, receiveTimestamp := 100,
     retransmittableFrames := [.other 1, .stream ⟨4, false, 0, 65000⟩] },
   { isRetransmission := false, ackDelay := 5, receiveTimestamp := 101,
     retransmittableFrames := [.stream ⟨4, false, 65000, 500⟩, .stream ⟨4, true, 65500, 1000⟩, .other 2] }]

theorem aggregation_transparent_twoPackets : (delivered twoPackets 7).map (fun n => n.frame) =
      [.other 1, .stream ⟨4, false, 0, 65500⟩, .stream ⟨4, true, 65500, 1000⟩, .other 2] ∧
    ackedFins 4 (delivered twoPackets 7) = [66500] ∧
    ∃ groups : List (List (Notice Nat)), groups.flatten = individual twoPackets ∧
      (delivered twoPackets 7).map (fun n => n.frame.length) = groups.map totalLength := by
  have hv : ∀ p ∈ twoPackets, ∀ f, .stream f ∈ p.retransmittableFrames → f.streamId ≠ invalidStreamId := by
    intro p hp f hf
    have hid : f.streamId = 4 := by
      simp only [twoPackets, mem_cons, not_mem_nil, or_false] at hp
      rcases hp with rfl | rfl
      · simp at hf
        simp [hf]
      · simp at hf
        rcases hf with hf | hf <;> simp [hf]
    rw [hid]
    decide
  obtain ⟨-, hfins, -, hlen⟩ := aggregation_transparent hv 7
  exact ⟨by decide, (hfins 4).trans (by decide), hlen⟩

end FrameAggregation

end Quictun
