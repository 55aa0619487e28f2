import Quictun.SendBufferContract
import Quictun.SequencerBufferContract

/-!
# From send buffer to sequencer

Frames are written out of the send buffer, which drops what is acknowledged. A frame that was put into a
packet may arrive at any time, any number of times, or never; what arrives goes to the sequencer's buffer.
-/

namespace Quictun

open QuicStreamSequencerBuffer QuicIntervalSet List Option
open QuicStreamSendBufferInlining (savedBy ackedBy ackedBy_append)
open QuicStreamSendBufferInlining renaming Ev → SendEv, step → sendStep

structure StreamTransfer where
  sender : QuicStreamSendBufferInlining := {}
  /-- The frames that were put into packets, and those of them that the receiving end has accepted. -/
  frames : List (Nat × Bytes) := []
  arrived : List (Nat × Bytes) := []
  receiver : QuicStreamSequencerBuffer
  read : Bytes := []

namespace StreamTransfer

inductive Ev
  | send (e : SendEv)
  | write (offset length : Nat) (w : QuicheDataWriter)
  | deliver (frame : Nat × Bytes)
  | ack (frame : Nat × Bytes) (probes : List Nat)
  | readv (dests : List Nat)

def Ev.sending : Ev → List SendEv
  | .send e => [e]
  | .write o n w => [.writeStreamData o n w]
  | .ack f probes => [.onStreamDataAcked f.1 f.2.length probes]
  | .deliver _ | .readv _ => []

/-- All that the sending application has written. -/
def written (es : List Ev) : Bytes := savedBy (es.flatMap Ev.sending)

def isAck : SendEv → Bool
  | .onStreamDataAcked _ _ _ => true
  | _ => false

/-- Only data that is not acknowledged is written, into a packet with room for it, and only a frame that was
accepted is acknowledged. -/
def step (enabled : Bool) (maxDataSliceSize : Nat) (t : StreamTransfer) (e : Ev) : Option StreamTransfer :=
  let next e := sendStep enabled maxDataSliceSize t.sender e
  match e with
  | .send e => if isAck e then none else (next e).map fun s => { t with sender := s }
  | .write o n w =>
    if o + n ≤ t.sender.streamOffset ∧ t.sender.bytesAcked.isDisjoint ⟨o, o + n⟩ = true ∧ n ≤ w.remaining then
      let r := t.sender.writeStreamData o n w
      some { t with sender := r.2.2, frames := (o, r.2.1.buffer.drop w.buffer.length) :: t.frames }
    else none
  | .deliver f =>
    if f ∈ t.frames then
      (accepted (t.receiver.onStreamData enabled f.1 f.2)).map fun s =>
        { t with receiver := s, arrived := f :: t.arrived }
    else none
  | .ack f probes =>
    if f ∈ t.arrived then (next (.onStreamDataAcked f.1 f.2.length probes)).map fun s =>
      { t with sender := s } else none
  | .readv dests =>
    let r := t.receiver.readv dests
    some { t with receiver := r.buffer, read := t.read ++ r.bytes }

def content (W : Bytes) (p : Nat) : UInt8 := W.getD p 0

variable {C m : Nat} {B W : Bytes} {enabled : Bool} {t t' : StreamTransfer} {e : Ev} {es : List Ev}
  {sent : List SendEv}

theorem cut_eq_piece (h : B <+: W) {o n : Nat} (hn : o + n ≤ B.length) : (B.drop o).take n = piece (content W) o n := by
  obtain ⟨D, rfl⟩ := h
  refine ext_getElem (by simp; omega) fun i hi _ => ?_
  have hi : o + i < B.length := by simp at hi; omega
  simp [piece, content, getElem?_append_left, hi]

/-- `W` is what the stream will have carried in the end. -/
structure Inv (C : Nat) (W : Bytes) (sent : List SendEv) (t : StreamTransfer) : Prop where
  sender : QuicStreamSendBufferInlining.After sent t.sender
  frames : ∀ f ∈ t.frames, f.2 = piece (content W) f.1 f.2.length ∧ f.1 + f.2.length ≤ (savedBy sent).length
  arrived : ∀ f ∈ t.arrived, Set.Ico f.1 (f.1 + f.2.length) ⊆ points t.receiver.bytesReceived
  acked : ackedBy sent ⊆ points t.receiver.bytesReceived
  receiver : Holds C (content W) (points t.receiver.bytesReceived) t.receiver
  read : t.read = piece (content W) 0 t.receiver.totalBytesRead
  received_lt : ∀ p ∈ points t.receiver.bytesReceived, p < (savedBy sent).length

theorem Inv.send (hm : 0 < m) (h : Inv C W sent t) {e : SendEv} {s : QuicStreamSendBufferInlining}
    (hs : sendStep enabled m t.sender e = some s) (ha : e.acks ⊆ points t.receiver.bytesReceived) :
    Inv C W (sent ++ [e]) { t with sender := s } := by
  have hle : (savedBy sent).length ≤ (savedBy (sent ++ [e])).length := by simp [savedBy]
  refine { h with sender := h.sender.step hm hs, frames := fun f hf => ?_, acked := ?_, received_lt := fun p hp => ?_ }
  · exact ⟨(h.frames f hf).1, (h.frames f hf).2.trans hle⟩
  · rw [ackedBy_append]
    exact Set.union_subset h.acked ha
  · exact Nat.lt_of_lt_of_le (h.received_lt p hp) hle

section
variable (hcap : kInitialBlockCount ≤ calculateBlockCount C)
include hcap

theorem Inv.deliver (h : Inv C W sent t) {f : Nat × Bytes} (hf : f ∈ t.frames) {r : QuicStreamSequencerBuffer}
    (hr : accepted (t.receiver.onStreamData enabled f.1 f.2) = some r) :
    Inv C W sent { t with receiver := r, arrived := f :: t.arrived } := by
  obtain ⟨hdata, hlen⟩ := h.frames f hf
  rw [hdata] at hr
  rcases h.receiver.onStreamData hcap enabled f.1 f.2.length with ⟨e, he, -⟩ | ⟨s', hs', hh, ht⟩
  · generalize t.receiver.onStreamData enabled f.1 (piece (content W) f.1 f.2.length) = q at he hr
    obtain ⟨q, u⟩ := q
    cases he
    cases hr
  rw [hs'] at hr
  cases hr
  have hpts := hh.received
  refine ⟨h.sender, h.frames, fun g hg => ?_, hpts ▸ h.acked.trans Set.subset_union_left, hpts ▸ hh, ht ▸ h.read,
    fun p hp => ?_⟩
  · rw [hpts]
    rcases mem_cons.1 hg with rfl | hg
    · exact Set.subset_union_right
    · exact (h.arrived g hg).trans Set.subset_union_left
  · rw [hpts] at hp
    exact hp.elim (h.received_lt p) fun hp => Nat.lt_of_lt_of_le hp.2 hlen

theorem Inv.readv (h : Inv C W sent t) (dests : List Nat) :
    Inv C W sent { t with
      receiver := (t.receiver.readv dests).buffer, read := t.read ++ (t.receiver.readv dests).bytes } := by
  have hrd := h.receiver.readv hcap dests
  have hpts := congrArg points hrd.bytesReceived
  refine ⟨h.sender, h.frames, hpts ▸ h.arrived, hpts ▸ h.acked, hpts ▸ hrd.holds, ?_, hpts ▸ h.received_lt⟩
  rw [hrd.totalBytesRead, piece_add, ← h.read, Nat.zero_add, hrd.bytes]

theorem Inv.step (hm : 0 < m) (h : Inv C W sent t) (hW : savedBy sent <+: W) (hs : step enabled m t e = some t') :
    Inv C W (sent ++ e.sending) t' := by
  cases e with
  | send e =>
    obtain ⟨ha, hs⟩ := ite_none_left_eq_some.1 hs
    obtain ⟨s, hsent, rfl⟩ := map_eq_some_iff.1 hs
    refine h.send hm hsent ?_
    cases e <;> first | exact Set.empty_subset _ | exact absurd rfl ha
  | write o n w =>
    obtain ⟨⟨hn, hdis, hroom⟩, ⟨⟩⟩ := ite_none_right_eq_some.1 hs
    have hsent : sendStep enabled m t.sender (.writeStreamData o n w) = _ := rfl
    have hnext := h.send hm hsent (Set.empty_subset _)
    have hh := h.sender.holds
    rw [hh.streamOffset] at hn
    obtain ⟨-, hw⟩ := hh.writes hn
      (fun p hp ha => (isDisjoint_iff hh.canonicalAcked _).1 hdis p (hh.acked ▸ ha) hp) hroom
    rw [h.sender.saved] at hn hw
    refine { hnext with frames := fun f hf => ?_ }
    rcases mem_cons.1 hf with rfl | hf
    · dsimp only
      rw [(QuicheDataWriter.writeBytes_eq_some.1 hw).2.2, drop_left, cut_eq_piece hW hn, length_piece]
      exact ⟨rfl, hn.trans (by simp [savedBy])⟩
    · exact hnext.frames f hf
  | deliver f =>
    obtain ⟨hf, hs⟩ := ite_none_right_eq_some.1 hs
    obtain ⟨r, hr, rfl⟩ := map_eq_some_iff.1 hs
    rw [Ev.sending, append_nil]
    exact h.deliver hcap hf hr
  | ack f probes =>
    obtain ⟨hf, hs⟩ := ite_none_right_eq_some.1 hs
    obtain ⟨s, hsent, rfl⟩ := map_eq_some_iff.1 hs
    exact h.send hm hsent (h.arrived f hf)
  | readv dests =>
    cases hs
    rw [Ev.sending, append_nil]
    exact h.readv hcap dests

/-- **Reliable transfer.** Whatever is lost, repeated or overtaken: what has been read begins what was written, every
byte written has arrived or can still be sent, and once all has arrived the rest can be read. -/
theorem reliable_transfer (hm : 0 < m)
    (hr : Lts.run (StreamTransfer.step enabled m) { receiver := { maxBufferCapacityBytes := C } } es = some t) :
    t.read <+: written es ∧
    (∀ p ∉ points t.receiver.bytesReceived, ∀ b ∈ (written es)[p]?, ∀ w, 0 < w.remaining →
      (t.sender.writeStreamData p 1 w).1 = true ∧ (t.sender.writeStreamData p 1 w).2.1.buffer = w.buffer ++ [b]) ∧
    (Set.Iio (written es).length ⊆ points t.receiver.bytesReceived →
      t.read ++ (t.receiver.readv [(written es).length]).bytes = written es) := by
  have h : Inv C (written es) (es.flatMap Ev.sending) t := by
    refine Lts.run_hist (I := fun fs t => written fs <+: written es → Inv C (written es) (fs.flatMap Ev.sending) t)
      (fun fs t e t' h hs hW => ?_) (fun _ => ?_) hr prefix_rfl
    · rw [flatMap_append, flatMap_singleton]
      have hW : written fs <+: written es := IsPrefix.trans (by simp [written, savedBy]) hW
      exact (h hW).step hcap hm hW hs
    · have hsent : Lts.run (sendStep enabled m) {} [] = _ := rfl
      refine ⟨QuicStreamSendBufferInlining.after_run hm hsent, by simp, by simp, by simp [ackedBy], ?_,
        rfl, fun p hp => ?_⟩ <;> rw [points_nil] at *
      · exact holds_fresh C _
      · cases hp
  have hh := h.receiver
  have hbound : ∀ k, (∀ p < k, p ∈ points t.receiver.bytesReceived) → k ≤ (written es).length :=
    fun k hk => not_lt.1 fun hlt => Nat.lt_irrefl _ (h.received_lt _ (hk _ hlt))
  have hle := hbound _ hh.consumed
  refine ⟨?_, fun p hp b hb w hw => ?_, fun hall => ?_⟩
  · rw [h.read, ← cut_eq_piece prefix_rfl (by omega)]
    exact take_prefix _ _
  · obtain ⟨hlt, rfl⟩ := List.getElem?_eq_some_iff.1 hb
    have hsaved : _ = written es := h.sender.saved
    obtain ⟨h1, h2⟩ := h.sender.holds.writes (o := p) (n := 1) (w := w) (by rw [hsaved]; exact hlt)
      (fun q hq ha => by
        obtain rfl : q = p := by have := hq.1; have := hq.2; omega
        exact hp (h.acked ha)) hw
    refine ⟨h1, ?_⟩
    rw [(QuicheDataWriter.writeBytes_eq_some.1 h2).2.2, hsaved, drop_eq_getElem_cons hlt]
    rfl
  · obtain ⟨h1, h2⟩ := firstMissingByte_spec hh.canonical
    have hfirst := Nat.le_antisymm (hbound _ h1) (not_lt.1 fun hlt => h2 (hall hlt))
    have hrd := hh.readv hcap [(written es).length]
    rw [readableBytes, hfirst, sum_singleton, Nat.min_eq_right (Nat.sub_le _ _)] at hrd
    rw [h.read, hrd.bytes]
    have hadd := piece_add (S := content (written es)) 0 t.receiver.totalBytesRead
      ((written es).length - t.receiver.totalBytesRead)
    rw [Nat.zero_add] at hadd
    rw [← hadd, ← cut_eq_piece prefix_rfl (by omega), drop_zero, take_of_length_le (by omega)]

end

def overtaken : List Ev :=
  [.send (.saveStreamData [1, 2, 3]), .send (.onStreamDataConsumed 3), .write 0 2 (.fresh 2), .write 2 1 (.fresh 1),
    .deliver (2, [3]), .ack (2, [3]) [], .deliver (2, [3]), .deliver (0, [1, 2]), .readv [2]]

theorem reliable_transfer_overtaken :
    ∃ t, Lts.run (step true 4) { receiver := { maxBufferCapacityBytes := 60000 } } overtaken = some t ∧
    t.read = [1, 2] ∧ t.read ++ (t.receiver.readv [3]).bytes = [1, 2, 3] := by
  have hr : Lts.run (step true 4) { receiver := { maxBufferCapacityBytes := 60000 } } overtaken = some _ := rfl
  refine ⟨_, hr, by decide +kernel, (reliable_transfer (by decide) (by decide) hr).2.2 fun p hp => ?_⟩
  exact ⟨⟨0, 3⟩, mem_cons_self, Nat.zero_le p, hp⟩

end StreamTransfer
end Quictun
