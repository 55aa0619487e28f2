import Quictun.TunnelWake

/-!
# Stalled tunnels are filed as stalled

A tunnel is filed by `IsHoldingBuffer()`: its queue is full or its stream has unsent data.
The class is recomputed at scattered points, and between them a block that will recompute
it is on the stack.

A completed send tops the queue up to the limit and then takes one chunk out for the next
send, and the class is recomputed after that: a tunnel that cannot get rid of its data is
filed as an idle one (`unread_filed_idle`). Only where no send is left pending over unread
bytes does a full queue stand for them.
-/

namespace Quictun

open Stack List

namespace QuictunStream

section
variable (s : QuictunStream)
include s

theorem read_keeps (n : Nat) : (s.read n).2.2.1.buffered = s.buffered ∧
    (s.read n).2.2.1.finBuffered = s.finBuffered ∧ (s.read n).2.2.1.finSent = s.finSent := by
  unfold read closeReadSide
  grind

theorem stopReading_keeps (f : Bool) : (s.stopReading f).1.buffered = s.buffered ∧
    (s.stopReading f).1.finBuffered = s.finBuffered ∧ (s.stopReading f).1.finSent = s.finSent := by
  unfold stopReading closeReadSide
  grind

theorem reset_keeps : s.reset.1.buffered = s.buffered ∧
    s.reset.1.finBuffered = s.finBuffered ∧ s.reset.1.finSent = s.finSent := by
  unfold reset maybeSendRstStream closeWriteSide closeReadSide
  grind

theorem writeToStream_keeps (data : Bytes) (fin : Bool) (k : Nat) (t : Bool) :
    (data = [] → (s.writeToStream data fin k t).1.buffered = s.buffered) ∧
    ((s.writeToStream data fin k t).1.finBuffered = true ∨ (s.writeToStream data fin k t).1.finSent = true →
      s.finBuffered = true ∨ s.finSent = true ∨ fin = true) := by
  unfold writeToStream writeBufferedData closeWriteSide hasBufferedData
  grind

theorem onCanWrite_keeps (k : Nat) (t : Bool) :
    (s.onCanWrite k t).1.buffered ≤ s.buffered ∧ (s.onCanWrite k t).1.finBuffered = s.finBuffered ∧
    ((s.onCanWrite k t).1.finSent = true → s.finBuffered = true ∨ s.finSent = true) ∧
    (0 < s.buffered → s.finBuffered = false → s.finSent = false →
      0 < (s.onCanWrite k t).1.buffered ∨ (s.onCanWrite k t).2 = some .canWriteMore) := by
  unfold onCanWrite writeBufferedData closeWriteSide hasBufferedData canWriteNewData bufferedDataThreshold
  grind

theorem onStreamFrame_keeps (bs : Bytes) (fin : Bool) :
    (s.onStreamFrame bs fin).1.buffered = s.buffered ∧ (s.onStreamFrame bs fin).1.finBuffered = s.finBuffered ∧
    (s.onStreamFrame bs fin).1.finSent = s.finSent ∧
    ((s.onStreamFrame bs fin).1.readable ≠ [] → s.readable ≠ [] ∨
      (s.onStreamFrame bs fin).2 = some .dataAvailable) := by
  unfold onStreamFrame closeReadSide goneIf
  grind

theorem peerClose_keeps (error : Bool) :
    ∀ t ∈ [(s.onStreamReset error).1, (s.onStopSending error).1, s.onConnectionClosed.1],
      t.buffered = s.buffered ∧ t.finBuffered = s.finBuffered ∧ t.finSent = s.finSent ∧
        (t.readable ≠ [] → s.readable ≠ []) := by
  unfold onStreamReset onStopSending onConnectionClosed maybeSendRstStream closeWriteSide closeReadSide
  grind

end

end QuictunStream

open QuictunStream

namespace World

def updating : Op → Bool
  | .receiveAfterWrite | .receiveEnd | .flushEnd | .fillQueueFromStream | .read | .fillAfterRead _ _ => true
  | _ => false

def reclassing : Op → Bool
  | .onStreamCanWriteMore => true
  | op => updating op

def slicewriting : Op → Bool
  | .writeToStream data fin => !fin || !data.isEmpty
  | _ => false

def UpdateBelow (w : World) : Prop := Before slicewriting updating w.todo

variable {op : Op}

theorem updateBelow_pushes {ops : List Op} (h : Pushes op ops) :
    slicewriting op = true ∨ Before slicewriting updating ops := by
  cases h with
  | cancelled k =>
    unfold cancelled
    split <;> split <;> split <;> simp [Before, slicewriting]
  | _ => simp [Before, slicewriting, updating]

variable {w : World} {rest : List Op}

theorem exec_updateBelow (ht : w.todo = op :: rest) (a : Answer)
    (h : UpdateBelow w) : UpdateBelow ((w.pop rest).exec a op) := by
  obtain ⟨ops, hp, he⟩ := exec_pushes (w.pop rest) a op
  unfold UpdateBelow at *
  rw [he]
  rw [ht] at h
  exact h.step (updateBelow_pushes hp)

structure FinDone (w : World) : Prop where
  written : w.stream.finBuffered = true ∨ w.stream.finSent = true → w.tunnel.tcpReceiveDone = true
  writing : has finishing w.todo = true → w.tunnel.tcpReceiveDone = true

structure Filing (w : World) : Prop extends FinDone w where
  heldBack : w.tunnel.started = true → w.tunnel.closed = false → w.isHoldingBuffer = true →
    w.tunnel.stalled = true ∨ has updating w.todo = true
  nothingHeld : w.tunnel.started = true → w.tunnel.closed = false → w.tunnel.tcpReceiveDone = false →
    w.tunnel.stalled = true → w.isHoldingBuffer = true ∨ has reclassing w.todo = true

attribute [grind] updating reclassing
attribute [grind cases] Filing
attribute [grind] FinDone

section
variable {w : World}

theorem stalled_updateIdleClass (hc : w.tunnel.closed = false) :
    w.updateIdleClass.tunnel.stalled = w.isHoldingBuffer := by
  unfold updateIdleClass
  rw [QuictunIdleTracker.updateIdleClass_open hc]
  split
  next h =>
    exact h.symm
  · rfl

theorem stalled_noteActivity (hc : w.tunnel.closed = false) : w.noteActivity.tunnel.stalled = w.isHoldingBuffer := by
  unfold noteActivity
  rw [QuictunIdleTracker.noteActivity_open hc]

theorem has_reclassing {l : List Op} (h : has updating l = true) : has reclassing l = true :=
  has_mono (by intro op; cases op <;> simp [reclassing, updating]) h

section
variable (hd : FinDone w)
include hd

-- recomputing the class settles the first two fields, whatever they were before
theorem filing_updateIdleClass : Filing w.updateIdleClass where
  toFinDone := { hd with }
  heldBack _ hc hh := .inl ((stalled_updateIdleClass (w := w) hc).trans hh)
  nothingHeld _ hc _ hs := .inl ((stalled_updateIdleClass (w := w) hc).symm.trans hs)

theorem filing_noteActivity : Filing w.noteActivity where
  toFinDone := { hd with }
  heldBack _ hc hh := .inl ((stalled_noteActivity (w := w) hc).trans hh)
  nothingHeld _ hc _ hs := .inl ((stalled_noteActivity (w := w) hc).symm.trans hs)

theorem filing_of_updating {ops : List Op} (hops : (has updating ops && !has finishing ops) = true) :
    Filing (w.push ops) := by
  rw [Bool.and_eq_true, Bool.not_eq_true'] at hops
  refine ⟨⟨hd.written, fun hp => hd.writing ?_⟩, fun _ _ _ => .inr ?_, fun _ _ _ _ => .inr ?_⟩
  · rwa [push, has_append, hops.2, Bool.false_or] at hp
  · rw [push, has_append, hops.1]
    rfl
  · rw [push, has_append, has_reclassing hops.1]
    rfl

end

theorem Filing.pop {op : Op} {rest : List Op} (h : Filing w) (ht : w.todo = op :: rest) (hop : reclassing op = false) :
    Filing (w.pop rest) := by
  have hup : updating op = false := by
    unfold reclassing at hop
    grind
  constructor <;> grind [isHoldingBuffer]

theorem Filing.push {ops : List Op} (h : Filing w) (hf : has finishing ops = true → w.tunnel.tcpReceiveDone = true) :
    Filing (w.push ops) := by
  constructor <;> grind [push, isHoldingBuffer]

theorem Filing.push_other {ops : List Op} (h : Filing w) (hf : has finishing ops = false) : Filing (w.push ops) :=
  h.push (by simp [hf])

theorem afterCall_stream (w : World) (a : Answer) (r : QuictunStream × Bool) (ops : List Op) : ∃ s c g,
    w.afterCall a r ops = { w with stream := s, connected := c }.push (if g = true then .onStreamGone :: ops else ops) ∧
    s.buffered = r.1.buffered ∧ s.finBuffered = r.1.finBuffered ∧ s.finSent = r.1.finSent ∧
    (s.readable ≠ [] → r.1.readable ≠ []) := by
  refine ⟨_, _, _, rfl, ?_⟩
  split
  · unfold onConnectionClosed closeWriteSide closeReadSide
    grind
  · exact ⟨rfl, rfl, rfl, id⟩

theorem Filing.afterCall (h : Filing w) (a : Answer) {r : QuictunStream × Bool} {ops : List Op}
    (hb : r.1.buffered = w.stream.buffered) (hfb : r.1.finBuffered = w.stream.finBuffered)
    (hfs : r.1.finSent = w.stream.finSent) (hops : has finishing ops = false) : Filing (w.afterCall a r ops) := by
  obtain ⟨s, c, g, he, h1, h2, h3, -⟩ := afterCall_stream w a r ops
  rw [he]
  have h' : Filing { w with stream := s, connected := c } := by
    constructor <;> grind [isHoldingBuffer, hasBufferedData]
  apply h'.push
  cases g <;> simp [hops, finishing]

theorem filing_maybeFinalizeClose (h : Filing w) : Filing w.maybeFinalizeClose := by
  unfold maybeFinalizeClose
  split
  · exact h
  split
  · exact Filing.push_other (w := w.cancelAlarm) { h with } rfl
  split
  · exact Filing.push_other (w := w.cancelAlarm) { h with } rfl
  · unfold armAlarm
    split
    · split
      · exact { h with }
      · exact h
    · exact { h with }

theorem filing_writeToStream (h : Filing w) (a : Answer) {data : Bytes} {fin : Bool}
    (hf : fin = true → w.tunnel.tcpReceiveDone = true)
    (hu : slicewriting (.writeToStream data fin) = true → has updating w.todo = true) :
    Filing (w.writeToStream a data fin) := by
  obtain ⟨s, c, g, he, h1, h2, h3, -⟩ := afterCall_stream (w.record (.writeToStream data fin)) a
    (w.stream.writeToStream data fin a.taken a.finTaken) []
  obtain ⟨hkeep, hfins⟩ := w.stream.writeToStream_keeps data fin a.taken a.finTaken
  rw [← h2, ← h3] at hfins
  have hw' : s.finBuffered = true ∨ s.finSent = true → w.tunnel.tcpReceiveDone = true := by
    intro hs
    rcases hfins hs with h' | h' | h'
    · exact h.written (.inl h')
    · exact h.written (.inr h')
    · exact hf h'
  have h' : Filing (record { w with stream := s, connected := c } (.writeToStream data fin)) := by
    by_cases hs : slicewriting (.writeToStream data fin) = true
    · -- a slice: `ReceiveComplete()` has yet to recompute the class
      exact ⟨⟨hw', h.writing⟩, fun _ _ _ => .inr (hu hs), fun _ _ _ _ => .inr (has_reclassing (hu hs))⟩
    · -- the FIN: nothing is added to the buffer
      simp only [slicewriting, Bool.or_eq_true, Bool.not_eq_true', not_or, Bool.not_eq_false, List.isEmpty_iff] at hs
      have hb : s.buffered = w.stream.buffered := h1.trans (hkeep hs.2)
      constructor <;> grind [record, isHoldingBuffer, hasBufferedData]
  rw [writeToStream, he]
  apply h'.push
  cases g <;> rintro ⟨⟩

end

theorem exec_filing (hi : Inv w) (hu : UpdateBelow w) (ht : w.todo = op :: rest)
    (a : Answer) (h : Filing w) : Filing ((w.pop rest).exec a op) := by
  have hcl : op.closing = true → w.tunnel.closed = true := fun hc => hi.closing (by rw [ht, has_cons, hc]; rfl)
  have hd : FinDone (w.pop rest) := ⟨h.written, fun hf => h.writing (by rw [ht, has_cons, hf, Bool.or_true])⟩
  have hp : reclassing op = false → Filing (w.pop rest) := h.pop ht
  cases op with
  | start seed => exact (filing_noteActivity (w := launch (w.pop rest) seed) { hd with }).push_other rfl
  | onStreamCanWriteMore =>
    simp only [exec, onStreamCanWriteMore]
    split
    · constructor <;> grind [isHoldingBuffer]
    split
    · refine Filing.push_other ?_ rfl
      constructor <;> grind [isHoldingBuffer]
    split
    · exact filing_updateIdleClass hd
    · exact (filing_updateIdleClass hd).push_other rfl
  | receiveComplete data =>
    have h' := hp rfl
    simp only [exec, receiveComplete]
    split
    · exact { h' with }
    split
    · refine Filing.push (w := sendDone (receiveArrived (w.pop rest) _)) ?_ fun _ => rfl
      exact ⟨⟨fun _ => rfl, fun _ => rfl⟩, h'.heldBack, fun _ _ hr => (by cases hr)⟩
    · exact (filing_noteActivity (w := receiveArrived (w.pop rest) _) { hd with }).push_other rfl
    · exact Filing.push_other (w := receiveArrived (w.pop rest) _) { h' with } rfl
  | sendComplete st =>
    have h' : Filing (sendArrived (w.pop rest)) := { hp rfl with }
    simp only [exec, sendComplete]
    split
    · exact h'
    split <;> exact h'.push_other rfl
  | onFlushCloseAlarm | maybeFinalizeClose => exact filing_maybeFinalizeClose (hp rfl)
  | fillQueueFromStream =>
    simp only [exec, fillQueueFromStream]
    split
    · exact filing_of_updating hd rfl
    · exact filing_updateIdleClass hd
  | fillAfterRead data fin =>
    have he : FinDone (enqueue (w.pop rest) data) := by
      unfold enqueue
      split
      · exact hd
      · exact { hd with }
    simp only [exec, fillAfterRead]
    split
    · exact filing_updateIdleClass (w := quicFinished (enqueue (w.pop rest) data)) { he with }
    split
    · exact filing_updateIdleClass hd
    · exact filing_of_updating he rfl
  | maybeFlushQuicToTcp =>
    simp only [exec, maybeFlushQuicToTcp]
    split
    · exact hp rfl
    split
    · exact (hp rfl).push_other rfl
    · exact filing_of_updating (by exact { hd with }) rfl
  | maybeCloseAfterQuicFin =>
    have h' := hp rfl
    simp only [exec, maybeCloseAfterQuicFin]
    split
    · exact h'
    split
    · exact h'.push_other rfl
    · refine Filing.push (w := sendDone (w.pop rest)) ?_ fun _ => rfl
      exact ⟨⟨fun _ => rfl, fun _ => rfl⟩, h'.heldBack, fun _ _ hr => (by cases hr)⟩
  | close r b =>
    simp only [exec, close]
    split <;> exact ⟨{ hd with }, fun _ hc => (by cases hc), fun _ hc => (by cases hc)⟩
  | receiveAfterWrite =>
    simp only [exec, receiveAfterWrite]
    split <;> exact filing_of_updating hd rfl
  | receiveEnd | flushEnd => exact filing_updateIdleClass hd
  | read =>
    obtain ⟨s, c, g, he, -, h2, h3, -⟩ := afterCall_stream (record (w.pop rest) (.read (w.stream.read kReadSize).1)) a
      (w.stream.read kReadSize).2.2 [.fillAfterRead (w.stream.read kReadSize).1 (w.stream.read kReadSize).2.1]
    obtain ⟨-, h4, h5⟩ := w.stream.read_keeps kReadSize
    simp only [exec, read, he]
    refine filing_of_updating ⟨?_, ?_⟩ ?_
    · have hw := hd.written
      rw [pop, ← h4, ← h5, ← h2, ← h3] at hw
      exact hw
    · exact hd.writing
    · cases g <;> rfl
  | writeToStream data fin =>
    refine filing_writeToStream (hp rfl) a (fun hf => h.writing (by rw [ht, hf]; rfl)) fun hs => ?_
    rw [UpdateBelow, ht] at hu
    exact hu.1 hs
  | stopReading =>
    obtain ⟨h1, h2, h3⟩ := w.stream.stopReading_keeps a.finReached
    exact (hp rfl).afterCall a h1 h2 h3 rfl
  | onClosed b => exact Filing.afterCall (w := record (w.pop rest) _) { hp rfl with } a rfl rfl rfl rfl
  | reset =>
    obtain ⟨h1, h2, h3⟩ := w.stream.reset_keeps
    exact Filing.afterCall (w := record (w.pop rest) _) { hp rfl with } a h1 h2 h3 rfl
  | disconnect =>
    refine Filing.push (w := record { w with todo := rest, socket := {} } _) { hp rfl with } ?_
    unfold cancelled
    split <;> split <;> split <;> rintro ⟨⟩
  | onStreamDataAvailable =>
    simp only [exec, onStreamDataAvailable]
    split
    · exact hp rfl
    · exact (hp rfl).push_other rfl
  | _ =>
    simp only [exec, onStreamGone, connectComplete, beginReadFromTcp, closeAfterStopReading, closeAfterDisconnect,
      onClosedReturned, closeAfterOnClosed, receiveAsync, sendAsync]
    repeat' split
    all_goals exact { hp rfl with }

theorem Filing.notified {w : World} (h : Filing w) (ht : w.todo = []) {r : QuictunStream × Option QuictunStream.Notice}
    (hb : r.1.buffered = w.stream.buffered) (hfb : r.1.finBuffered = w.stream.finBuffered)
    (hfs : r.1.finSent = w.stream.finSent) : Filing (w.notified r) := by
  unfold World.notified
  constructor <;> grind [isHoldingBuffer, hasBufferedData]

variable {w' : World} {e : Ev}

theorem deliver_filing (ht : w.todo = []) (hw : w.deliver e = some w') (h : Filing w) : Filing w' := by
  have hcall : ∀ {y x k} op, has finishing [op] = false →
      Filing { w with
        tunnel := { w.tunnel with hasSocket := x, flushCloseAlarm := y }, socket := k, todo := [op] } := by
    intro y x k op hop
    constructor <;> grind [isHoldingBuffer]
  cases deliver_cases hw with
  | streamFrame bs fin =>
    obtain ⟨hb, hfb, hfs, -⟩ := w.stream.onStreamFrame_keeps bs fin
    exact h.notified ht hb hfb hfs
  | streamReset error =>
    obtain ⟨hb, hfb, hfs, -⟩ := w.stream.peerClose_keeps error _ (.head _)
    exact h.notified ht hb hfb hfs
  | stopSending error =>
    obtain ⟨hb, hfb, hfs, -⟩ := w.stream.peerClose_keeps error _ (.tail _ (.head _))
    exact h.notified ht hb hfb hfs
  | canWrite k f =>
    obtain ⟨hb, hfb, hfs, hcan⟩ := w.stream.onCanWrite_keeps k f
    simp only [notified]
    generalize w.stream.onCanWrite k f = r at *
    constructor <;> grind [isHoldingBuffer, hasBufferedData]
  | ack k f => exact h.notified ht rfl rfl rfl
  | connectionClosed =>
    obtain ⟨hb, hfb, hfs, -⟩ := w.stream.peerClose_keeps true _ (.tail _ (.tail _ (.head _)))
    exact { h.notified (r := goneIf w.stream.onConnectionClosed) ht hb hfb hfs with }
  | dials => exact { h with }
  | _ => exact hcall _ rfl

/-! ## Unread bytes -/

def attending : Op → Bool
  | .onStreamDataAvailable | .fillQueueFromStream | .read | .sendAsync _ | .sendComplete _ | .onStreamGone |
    .close _ _ => true
  | .fillAfterRead data fin => !fin && !data.isEmpty
  | _ => false

def Unread (w : World) : Prop := w.tunnel.started = true → w.tunnel.closed = false → w.stream.readable ≠ [] →
  kMaxQueuedChunks ≤ w.tunnel.pendingToTcp.length ∨ has attending w.todo = true

/-- A `SendAsync()` that will not complete at once is about to be called over unread bytes. -/
def sendsOverUnread (w : World) : Ev → Bool
  | .exec a => match w.todo with
    | .sendAsync _ :: _ => a.sent.isNone && !w.stream.readable.isEmpty
    | _ => false
  | _ => false

attribute [grind] attending

theorem Unread.afterCall {w : World} (h : Unread w) (a : Answer) {r : QuictunStream × Bool} {ops : List Op}
    (hr : r.1.readable ≠ [] → w.stream.readable ≠ [] ∨ has attending ops = true) : Unread (w.afterCall a r ops) := by
  obtain ⟨s, c, g, he, -, -, -, h4⟩ := afterCall_stream w a r ops
  rw [he]
  unfold Unread at *
  cases g <;> grind [push]

theorem Unread.enqueue {w : World} (h : Unread w) (data : Bytes) : Unread (w.enqueue data) := by
  unfold World.enqueue
  split
  · exact h
  · intro hs ho hr
    refine (h hs ho hr).imp_left fun hq => Nat.le_trans hq ?_
    rw [length_append]
    exact Nat.le_add_right _ _

theorem exec_unread (ht : w.todo = op :: rest) {a : Answer}
    (hc : sendsOverUnread w (.exec a) = false) (h : Unread w) : Unread ((w.pop rest).exec a op) := by
  have hp : attending op = false → Unread (w.pop rest) := by
    intro hop
    rw [Unread, ht, has_cons, hop, Bool.false_or] at h
    exact h
  cases op with
  | start seed => exact fun _ _ _ => .inr rfl
  | onStreamDataAvailable =>
    simp only [exec, onStreamDataAvailable]
    split
    next hg =>
      intro hs ho
      have hs : w.tunnel.started = true := hs
      have ho : w.tunnel.closed = false := ho
      simp [hs, ho] at hg
    · exact fun _ _ _ => .inr rfl
  | onStreamGone =>
    simp only [exec, onStreamGone]
    split
    next hcl =>
      exact fun _ ho => by cases hcl.symm.trans ho
    · exact fun _ _ _ => .inr rfl
  | close r b =>
    simp only [exec, close]
    split <;> exact fun _ hc => by cases hc
  | sendComplete st =>
    simp only [exec, sendComplete]
    split
    next hcl =>
      exact fun _ ho => by cases hcl.symm.trans ho
    split <;> exact fun _ _ _ => .inr rfl
  | sendAsync chunk =>
    simp only [exec, sendAsync]
    split
    · exact fun _ _ _ => .inr rfl
    next hn =>
      intro _ _ hr
      rw [sendsOverUnread, ht] at hc
      simp only [hn, Option.isNone_none, Bool.true_and, Bool.not_eq_false', List.isEmpty_iff] at hc
      exact absurd hc hr
  | fillQueueFromStream =>
    simp only [exec, fillQueueFromStream]
    split
    · exact fun _ _ _ => .inr rfl
    next hfull =>
      exact fun _ _ _ => .inl (Nat.le_of_not_lt hfull)
  | fillAfterRead data fin =>
    simp only [exec, fillAfterRead]
    split
    next hf =>
      subst hf
      exact (hp rfl).enqueue data
    split
    next hf hd =>
      exact hp (by simp [attending, hd])
    · exact fun _ _ _ => .inr rfl
  | maybeFlushQuicToTcp =>
    simp only [exec, maybeFlushQuicToTcp]
    split
    · exact hp rfl
    split
    · exact hp rfl
    · exact fun _ _ _ => .inr rfl
  | read =>
    obtain ⟨s, c, g, he, -, -, -, hr⟩ := afterCall_stream (record (w.pop rest) (.read (w.stream.read kReadSize).1)) a
      (w.stream.read kReadSize).2.2 [.fillAfterRead (w.stream.read kReadSize).1 (w.stream.read kReadSize).2.1]
    simp only [exec, read, he]
    intro _ _ hne
    obtain ⟨hf, hd⟩ := read_more (hr hne)
    cases g <;> exact .inr (by simp [push, attending, hf, hd])
  | writeToStream data fin =>
    refine Unread.afterCall (w := record (w.pop rest) _) (hp rfl) a fun hr => .inl ?_
    rwa [(w.stream.writeToStream_spec data fin a.taken a.finTaken).1] at hr
  | stopReading =>
    refine (hp rfl).afterCall a fun hr => .inl ?_
    unfold QuictunStream.stopReading QuictunStream.closeReadSide at hr
    grind
  | onClosed b => exact Unread.afterCall (w := record (w.pop rest) _) (hp rfl) a .inl
  | reset =>
    refine Unread.afterCall (w := record (w.pop rest) _) (hp rfl) a fun hr => .inl ?_
    unfold QuictunStream.reset QuictunStream.maybeSendRstStream QuictunStream.closeWriteSide
      QuictunStream.closeReadSide at hr
    grind [record]
  | disconnect =>
    have h' := hp rfl
    unfold Unread at *
    grind [exec, disconnect, push, record]
  | _ =>
    simp only [exec, onStreamCanWriteMore, connectComplete, receiveComplete, beginReadFromTcp, maybeCloseAfterQuicFin,
      maybeFinalizeClose, armAlarm, receiveAfterWrite, closeAfterStopReading, closeAfterDisconnect, closeAfterOnClosed,
      onClosedReturned, receiveAsync]
    repeat' split
    all_goals first | exact hp rfl | exact fun _ _ _ => .inr rfl

theorem Unread.notified {w : World} (h : Unread w) (ht : w.todo = []) {r : QuictunStream × Option QuictunStream.Notice}
    (hr : r.1.readable ≠ [] → w.stream.readable ≠ [] ∨ r.2 = some .dataAvailable) : Unread (w.notified r) := by
  intro hs ho hne
  rcases hr hne with hr | hr
  · refine (h hs ho hr).imp_right fun ha => ?_
    rw [ht] at ha
    cases ha
  · exact .inr (by simp [World.notified, hr, attending])

theorem deliver_unread (ht : w.todo = []) (hw : w.deliver e = some w') (h : Unread w) : Unread w' := by
  have hcall : ∀ {y x k} op,
      Unread { w with
        tunnel := { w.tunnel with hasSocket := x, flushCloseAlarm := y }, socket := k, todo := [op] } := by
    intro y x k op hs ho hr
    refine (h hs ho hr).imp_right fun ha => ?_
    rw [ht] at ha
    cases ha
  have hclose := w.stream.peerClose_keeps
  cases deliver_cases hw with
  | streamFrame bs fin => exact h.notified ht (w.stream.onStreamFrame_keeps bs fin).2.2.2
  | streamReset error => exact h.notified ht fun hr => .inl ((hclose error _ (.head _)).2.2.2 hr)
  | stopSending error => exact h.notified ht fun hr => .inl ((hclose error _ (.tail _ (.head _))).2.2.2 hr)
  | canWrite k f =>
    refine h.notified ht fun hr => .inl ?_
    rwa [(w.stream.onCanWrite_spec k f).1] at hr
  | ack k f => exact h.notified ht .inl
  | connectionClosed =>
    exact h.notified (r := goneIf w.stream.onConnectionClosed) ht fun hr =>
      .inl ((hclose true _ (.tail _ (.tail _ (.head _)))).2.2.2 hr)
  | dials => exact h
  | _ => exact hcall _

theorem step_unread (h : Unread w) (hc : sendsOverUnread w e = false) (hw : w.step e = some w') : Unread w' := by
  rcases step_cases hw with ⟨a, op, rest, rfl, ht, rfl⟩ | ⟨d, rfl⟩ | ⟨k, -, rfl⟩ | ⟨ht, hw⟩
  · exact exec_unread ht hc h
  · exact h
  · exact h
  · exact deliver_unread ht hw h

/-! ## Whole runs -/

structure Classed (w : World) : Prop extends Discipline w where
  updateBelow : UpdateBelow w
  filing : Filing w

theorem step_classed (h : Classed w) (hw : w.step e = some w') : Classed w' := by
  have hd := step_discipline h.toDiscipline hw
  rcases step_cases hw with ⟨a, op, rest, -, ht, rfl⟩ | ⟨d, rfl⟩ | ⟨k, -, rfl⟩ | ⟨ht, hw⟩
  · exact ⟨hd, exec_updateBelow ht a h.updateBelow, exec_filing h.toInv h.updateBelow ht a h.filing⟩
  · exact ⟨hd, h.updateBelow, { h.filing with }⟩
  · exact ⟨hd, h.updateBelow, { h.filing with }⟩
  · refine ⟨hd, ?_, deliver_filing ht hw h.filing⟩
    obtain ⟨x, y, s, k, c, ops, rfl, ho, -⟩ := deliver_eq ht hw
    unfold UpdateBelow
    rcases ho with rfl | ⟨op, rfl, he⟩
    · trivial
    · cases op <;> first | (cases he; done) | exact ⟨nofun, trivial⟩

theorem init_classed (client : Bool) (seed : Bytes) {s : QuictunStream} (hb : s.finBuffered = false)
    (hs : s.finSent = false)
    {me : Nat} {k : QuictunIdleTracker Nat} (hk : k.Unlinked me) (now : Time) :
    Classed (init client seed s me k now) where
  toDiscipline := init_discipline client seed s hk now
  updateBelow := trivial
  filing := ⟨⟨fun h => h.elim (fun h => by cases hb.symm.trans h) (fun h => by cases hs.symm.trans h), nofun⟩, nofun,
    nofun⟩

/-- **Stalled tunnels are filed as stalled** whenever no callback is running: for unsent stream data always, for
unread bytes if no send was left pending over them. Until it is done receiving, a tunnel that holds
nothing back is in `order_`. -/
theorem stalled_filed (client : Bool) (seed : Bytes) (s : QuictunStream) (me : Nat) (k : QuictunIdleTracker Nat)
    (now : Time) (hb : s.finBuffered = false) (hs : s.finSent = false) (hk : k.Unlinked me) (es : List Ev) (w : World)
    (hrun : Lts.run step (init client seed s me k now) es = some w)
    (ht : w.todo = []) (hst : w.tunnel.started = true) (hcl : w.tunnel.closed = false) :
    (w.stream.hasBufferedData = true → w.me ∈ w.tracker.stalledOrder) ∧
    (Lts.AllSteps step (fun w e => sendsOverUnread w e = false) (init client seed s me k now) es →
      w.stream.readable ≠ [] → w.tunnel.tcpSendInFlight = true → w.me ∈ w.tracker.stalledOrder) ∧
    (w.tunnel.tcpReceiveDone = false → w.stream.readable = [] → w.tunnel.pendingToTcp.length < kMaxQueuedChunks →
      w.stream.hasBufferedData = false → w.me ∈ w.tracker.order) := by
  have h : Classed w := Lts.run_inv (fun _ _ _ hi hw => step_classed hi hw) (init_classed client seed hb hs hk now) hrun
  have hlink : w.me ∈ w.tracker.list w.tunnel.stalled := by
    have hf := h.filed
    rw [IsFiled, QuictunIdleTracker.Filed, if_pos ⟨hst, hcl⟩] at hf
    exact List.count_pos_iff.1 (by rw [hf, if_pos rfl]; exact Nat.one_pos)
  have hover : w.isHoldingBuffer = true → w.me ∈ w.tracker.stalledOrder := by
    intro hh
    have hst' : w.tunnel.stalled = true := by simpa [ht] using h.filing.heldBack hst hcl hh
    rwa [hst'] at hlink
  refine ⟨fun hbuf => hover ?_, fun hc hr _ => hover ?_, fun hd _ hlen hbuf => ?_⟩
  · simp [isHoldingBuffer, hbuf]
  · have h0 : Unread (init client seed s me k now) := fun hs => by cases hs
    have hu : Unread w := Lts.run_inv_of (fun _ _ _ hi hc hw => step_unread hi hc hw) h0 hc hrun
    have hfull : kMaxQueuedChunks ≤ w.tunnel.pendingToTcp.length := by simpa [ht] using hu hst hcl hr
    simp [isHoldingBuffer, hfull]
  · have hst' : w.tunnel.stalled = false := by
      by_contra hst'
      have := h.filing.nothingHeld hst hcl hd (by simpa using hst')
      simp only [ht, has_nil, Bool.false_eq_true, or_false, isHoldingBuffer, hbuf, Bool.or_false,
        decide_eq_true_eq] at this
      omega
    rwa [hst'] at hlink

def backlog : List Ev :=
  .start [] :: replicate 8 (.exec {}) ++ .streamFrame [1] false :: replicate 10 (.exec {}) ++
    .streamFrame [2] false :: replicate 8 (.exec {}) ++ .streamFrame [3] false :: replicate 8 (.exec {}) ++
    .streamFrame [4] false :: replicate 8 (.exec {}) ++ .streamFrame [5] false :: replicate 6 (.exec {}) ++
    .streamFrame [6] false :: replicate 3 (.exec {})

def backlogged : World := (Lts.run step (init true [] {} 0 {} 0) backlog).getD (init true [] {} 0 {} 0)

theorem run_backlog : Lts.run step (init true [] {} 0 {} 0) backlog = some backlogged := by decide +kernel

theorem stalled_filed_backlog : backlogged.stream.readable = [6] ∧ backlogged.tunnel.tcpSendInFlight = true ∧
    backlogged.me ∈ backlogged.tracker.stalledOrder :=
  ⟨by decide +kernel, by decide +kernel, (stalled_filed true [] {} 0 {} 0 rfl rfl (by intro b; cases b <;> rfl) backlog
    backlogged run_backlog (by decide +kernel) (by decide +kernel) (by decide +kernel)).2.1
    (Lts.allSteps_of_check (by decide +kernel)) (by decide +kernel) (by decide +kernel)⟩

/-- The send completes, the next one stays pending: the same tunnel, with the same byte unread, is filed as idle. -/
theorem unread_filed_idle :
    ∃ w, Lts.run step (init true [] {} 0 {} 0) (backlog ++ .sendDone true :: List.replicate 5 (.exec {})) = some w ∧
    w.todo = [] ∧ w.tunnel.started = true ∧ w.tunnel.closed = false ∧
    w.stream.readable = [6] ∧ w.tunnel.tcpSendInFlight = true ∧ w.socket.sending = true ∧
    w.tracker.stalledOrder = [] ∧ w.tracker.order = [w.me] := by
  refine ⟨_, Lts.run_append.2 ⟨backlogged, run_backlog, rfl⟩, ?_⟩
  decide +kernel

end World

end Quictun
