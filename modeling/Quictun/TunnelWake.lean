import Quictun.TunnelBytes

/-!
# No lost wake-up

Each direction of a tunnel is paused by some conditions and resumed by one callback. Every
field of `Awake` reads: what is waiting has its operation in flight, or the block that
starts it is still to run. A call that closes the tunnel ends all such promises: `Live` says
that none is on the stack.
-/

namespace Quictun

open Stack

namespace QuictunStream

def Consumed (s : QuictunStream) : Prop := s.finRead = true → s.fin = true ∧ s.readable = []

def finished (s : QuictunStream) : Bool := s.finBuffered || s.finSent || s.writeSideClosed

variable {s : QuictunStream}

theorem onConnectionClosed_quiet (h : s.onConnectionClosed.2 = false) :
    s.onConnectionClosed.1 = { s with streamError := true } := by
  unfold onConnectionClosed closeWriteSide closeReadSide at *
  by_cases hw : s.writeSideClosed = true
  · by_cases hr : s.readSideClosed = true
    · simp [hw, hr]
    · simp [hw, hr] at h
  · by_cases hr : s.readSideClosed = true
    · simp [hw, hr] at h
    · simp [hw, hr] at h

theorem read_more (h : (s.read kReadSize).2.2.1.readable ≠ []) :
    (s.read kReadSize).2.1 = false ∧ (s.read kReadSize).1 ≠ [] := by
  unfold read at h ⊢
  simp only at h ⊢
  split
  next hf =>
    simp only [hf, if_true] at h
    unfold closeReadSide at h
    split at h <;> simp_all
  next hf =>
    simp only [hf] at h
    refine ⟨rfl, fun ht => h ?_⟩
    rw [List.take_eq_nil_iff] at ht
    rw [ht.resolve_left (by decide)]
    rfl

theorem read_spec (hc : s.Consumed) :
    (s.read kReadSize).2.2.1.buffered = s.buffered ∧ (s.read kReadSize).2.2.1.finished = s.finished ∧
    (s.read kReadSize).2.2.1.Consumed ∧ ((s.read kReadSize).2.2.1.finRead = true → (s.read kReadSize).2.1 = true) := by
  unfold read closeReadSide Consumed finished at *
  simp only
  split
  · split <;> simp_all
  next hf =>
    refine ⟨rfl, rfl, fun hr => ?_, fun hr => ?_⟩
    · simp [(hc hr).1, (hc hr).2] at hf
    · simp [(hc hr).1, (hc hr).2] at hf

theorem writeToStream_spec (s : QuictunStream) (data : Bytes) (fin : Bool) (k : Nat) (finTaken : Bool) :
    (s.writeToStream data fin k finTaken).1.readable = s.readable ∧
      (s.writeToStream data fin k finTaken).1.finRead = s.finRead ∧
    (s.writeToStream data fin k finTaken).1.fin = s.fin ∧
    (s.hasBufferedData = true → (s.writeToStream data fin k finTaken).1.hasBufferedData = true) ∧
    ((s.writeToStream data fin k finTaken).1.finished = true → s.finished = true ∨ fin = true) := by
  unfold writeToStream writeBufferedData closeWriteSide finished hasBufferedData
  grind

theorem onCanWrite_spec (s : QuictunStream) (k : Nat) (finTaken : Bool) :
    (s.onCanWrite k finTaken).1.readable = s.readable ∧ (s.onCanWrite k finTaken).1.finRead = s.finRead ∧
    (s.onCanWrite k finTaken).1.fin = s.fin ∧
    ((s.onCanWrite k finTaken).1.finished = true → s.finished = true) ∧
    (s.hasBufferedData = true → (s.onCanWrite k finTaken).1.hasBufferedData = true ∨ s.finished = true ∨
      (s.onCanWrite k finTaken).2 = some .canWriteMore) := by
  unfold onCanWrite writeBufferedData closeWriteSide finished hasBufferedData canWriteNewData bufferedDataThreshold
  grind

theorem onStreamFrame_spec (hc : s.Consumed) (bs : Bytes) (fin : Bool) :
    (s.onStreamFrame bs fin).1.buffered = s.buffered ∧ (s.onStreamFrame bs fin).1.finished = s.finished ∧
    (s.onStreamFrame bs fin).1.finRead = s.finRead ∧ (s.onStreamFrame bs fin).1.Consumed ∧
    ((s.onStreamFrame bs fin).1.readable ≠ [] → s.readable ≠ [] ∨
      (s.onStreamFrame bs fin).2 = some .dataAvailable) := by
  unfold onStreamFrame closeReadSide Consumed finished goneIf at *
  grind

theorem onStreamReset_spec (hc : s.Consumed) (error : Bool) :
    (s.onStreamReset error).1.buffered = s.buffered ∧ (s.onStreamReset error).1.finished = s.finished ∧
    (s.onStreamReset error).1.finRead = s.finRead ∧ (s.onStreamReset error).1.Consumed ∧
    ((s.onStreamReset error).1.readable ≠ [] → s.readable ≠ []) := by
  unfold onStreamReset closeReadSide Consumed finished at *
  grind

end QuictunStream

open QuictunStream

namespace World

/-! ## Blocks by what they take care of -/

def filling : Op → Bool
  | .fillQueueFromStream | .read | .fillAfterRead _ _ => true
  | _ => false

def flushing : Op → Bool
  | .maybeFlushQuicToTcp => true
  | _ => false

def refilling : Op → Bool
  | .onStreamDataAvailable | .fillQueueFromStream | .read => true
  | .fillAfterRead data fin => !fin && !data.isEmpty
  | _ => false

def looping : Op → Bool
  | .fillQueueFromStream | .read => true
  | _ => false

def finTaking : Op → Bool
  | .fillAfterRead _ fin => fin
  | _ => false

def resuming : Op → Bool
  | .beginReadFromTcp | .receiveAfterWrite | .onStreamCanWriteMore => true
  | _ => false

def forwardingFin : Op → Bool
  | .maybeFlushQuicToTcp | .maybeCloseAfterQuicFin => true
  | _ => false

def sendingNow : Op → Bool
  | .sendAsync _ | .sendComplete _ => true
  | _ => false

def receivingNow : Op → Bool
  | .receiveAsync | .receiveComplete _ => true
  | _ => false

def ending : Op → Bool
  | .onStreamGone | .close _ _ => true
  | _ => false

def FlushBelow (w : World) : Prop := Before filling flushing w.todo

variable {op : Op} {ops : List Op}

theorem before_pushes (h : Pushes op ops) : filling op = true ∨ Before filling flushing ops := by
  cases h with
  | cancelled k =>
    unfold cancelled
    split <;> split <;> split <;> simp [Before, filling]
  | _ => simp [Before, filling, flushing]

variable {w : World} {rest : List Op}

theorem exec_flushBelow (ht : w.todo = op :: rest) (a : Answer)
    (h : FlushBelow w) : FlushBelow ((w.pop rest).exec a op) := by
  obtain ⟨ops, hp, he⟩ := exec_pushes (w.pop rest) a op
  unfold FlushBelow at *
  rw [he]
  rw [ht] at h
  exact h.step (before_pushes hp)

/-- The tunnel is open and stays open until the stack is empty, unless a call yet to be made closes it. -/
structure Live (w : World) : Prop where
  opened : w.tunnel.closed = false
  calm : has ending w.todo = false

theorem exec_closed (hc : w.tunnel.closed = true) (a : Answer) (op : Op) : (w.exec a op).tunnel.closed = true := by
  cases op with
  | receiveComplete data => simp only [exec, receiveComplete, hc, if_true]; exact hc
  | sendComplete st => simp only [exec, sendComplete, hc, if_true]; exact hc
  | close r b =>
    simp only [exec, close]
    split <;> rfl
  | _ =>
    simp only [exec, onStreamDataAvailable, onStreamCanWriteMore, onStreamGone, connectComplete, fillQueueFromStream,
      fillAfterRead, enqueue, beginReadFromTcp, maybeFlushQuicToTcp, maybeCloseAfterQuicFin, maybeFinalizeClose,
      armAlarm, receiveAfterWrite, closeAfterStopReading, closeAfterDisconnect, closeAfterOnClosed, receiveAsync,
      sendAsync]
    repeat' split
    all_goals exact hc

variable {a : Answer}

theorem Live.of_exec (ht : w.todo = op :: rest) (h : Live ((w.pop rest).exec a op)) : Live w ∧ ending op = false := by
  obtain ⟨ops, -, he⟩ := exec_pushes (w.pop rest) a op
  have hc := h.calm
  rw [he, has_append, Bool.or_eq_false_iff] at hc
  have ho : w.tunnel.closed = false := by
    by_contra hcl
    cases h.opened.symm.trans (exec_closed (w := w.pop rest) (by simpa using hcl) a op)
  have hop : ending op = false := by
    cases op with
    | onStreamGone =>
      have hc := h.calm
      simp only [exec, onStreamGone, ho] at hc
      cases hc
    | close r b =>
      have ho := h.opened
      simp only [exec, close] at ho
      split at ho <;> cases ho
    | _ => rfl
  refine ⟨⟨ho, ?_⟩, hop⟩
  rw [ht, has_cons, hop, hc.2]
  rfl

theorem afterCall_live {r : QuictunStream × Bool} (h : has ending (w.afterCall a r ops).todo = false) :
    ∃ c e, w.afterCall a r ops = { w with stream := { r.1 with streamError := e }, connected := c }.push ops := by
  unfold afterCall at h ⊢
  simp only at h ⊢
  by_cases hf : (a.connectionFails && w.connected) = true
  · rw [if_pos hf] at h ⊢
    by_cases hg : (r.2 || r.1.onConnectionClosed.2) = true
    · rw [if_pos hg] at h
      cases h
    · rw [if_neg hg]
      simp only [Bool.or_eq_true, not_or, Bool.not_eq_true] at hg
      rw [onConnectionClosed_quiet hg.2]
      exact ⟨_, _, rfl⟩
  · rw [if_neg hf] at h ⊢
    by_cases hg : (r.2 || false) = true
    · rw [if_pos hg] at h
      cases h
    · rw [if_neg hg]
      exact ⟨_, r.1.streamError, rfl⟩

/-! ## What is waiting is taken care of -/

structure Awake (w : World) : Prop where
  unread : w.tunnel.started = true → w.stream.readable ≠ [] →
    kMaxQueuedChunks ≤ w.tunnel.pendingToTcp.length ∨ w.tunnel.tcpSendInFlight = true ∨ has refilling w.todo = true
  queued : w.tunnel.started = true → w.tunnel.pendingToTcp ≠ [] →
    w.tunnel.tcpSendInFlight = true ∨ has flushing w.todo = true
  receiving : w.tunnel.started = true → w.tunnel.tcpReceiveDone = false →
    w.tunnel.tcpReceiveInFlight = true ∨ w.stream.hasBufferedData = true ∨ has resuming w.todo = true
  finRead : w.tunnel.started = true → w.stream.finRead = true → w.tunnel.quicReceiveDone = true ∨
    has finTaking w.todo = true ∨ (has looping w.todo = true ∧ w.tunnel.pendingToTcp.length < kMaxQueuedChunks)
  finDone : w.tunnel.started = true → w.tunnel.quicReceiveDone = true → w.tunnel.pendingToTcp = [] →
    w.tunnel.tcpSendInFlight = false → w.tunnel.tcpReceiveDone = true ∨ has forwardingFin w.todo = true
  finWritten : w.stream.finished = true → w.tunnel.tcpReceiveDone = true
  finWriting : has finishing w.todo = true → w.tunnel.tcpReceiveDone = true
  consumed : w.stream.Consumed
  sending : w.tunnel.tcpSendInFlight = true → w.socket.sending = true ∨ has sendingNow w.todo = true
  receive : w.tunnel.tcpReceiveInFlight = true → w.socket.receiving = true ∨ has receivingNow w.todo = true

attribute [grind =] has_nil has_cons has_append
attribute [grind] refilling flushing resuming finTaking looping forwardingFin sendingNow receivingNow finishing ending
attribute [grind cases] Awake

def idle : Op → Bool
  | .start _ | .connectComplete _ | .onFlushCloseAlarm | .maybeFinalizeClose | .receiveEnd | .flushEnd => true
  | _ => false

theorem Awake.pop (h : Awake w) (ht : w.todo = op :: rest) (hop : idle op = true) : Awake (w.pop rest) := by
  have hp : (refilling op || flushing op || resuming op || finTaking op || looping op || forwardingFin op ||
    finishing op ||
      sendingNow op || receivingNow op) = false := by
    cases op <;> first | (cases hop; done) | rfl
  simp only [Bool.or_eq_false_iff] at hp
  constructor <;> grind

theorem Awake.push {w : World} {ops : List Op} (h : Awake w) (hf : has finishing ops = false) : Awake (w.push ops) := by
  constructor <;> grind [push]

section
variable {w : World} {rest : List Op} (h : Awake w)
include h

theorem awake_fillQueueFromStream (ht : w.todo = .fillQueueFromStream :: rest) :
    Awake (fillQueueFromStream (w.pop rest)) := by
  unfold fillQueueFromStream
  split
  · constructor <;> grind [push]
  · constructor <;> grind [updateIdleClass]

variable {data : Bytes}

theorem awake_fillAfterRead_fin (ht : w.todo = .fillAfterRead data true :: rest)
    (hf : has flushing rest = true) : Awake (fillAfterRead (w.pop rest) data true) := by
  have hff : has forwardingFin rest = true := has_mono (by intro op; cases op <;> simp [flushing, forwardingFin]) hf
  have he : data.isEmpty = false → data ≠ [] := by cases data <;> simp
  simp only [fillAfterRead, enqueue, if_true]
  split
  · constructor <;> grind [updateIdleClass, quicFinished]
  · constructor <;> grind [updateIdleClass, quicFinished, noteActivity]

theorem awake_fillAfterRead_data (ht : w.todo = .fillAfterRead data false :: rest)
    (hf : has flushing rest = true) (hn : has looping rest = false) :
    Awake (fillAfterRead (w.pop rest) data false) := by
  have hff : has forwardingFin rest = true := has_mono (by intro op; cases op <;> simp [flushing, forwardingFin]) hf
  have he : data.isEmpty = false → data ≠ [] := by cases data <;> simp
  simp only [fillAfterRead, enqueue, Bool.false_eq_true, if_false]
  split
  · constructor <;> grind [updateIdleClass]
  · constructor <;> grind [push, noteActivity]

variable {fin : Bool}

theorem awake_fillAfterRead (ht : w.todo = .fillAfterRead data fin :: rest)
    (hf : has flushing rest = true) (hn : has looping rest = false) : Awake (fillAfterRead (w.pop rest) data fin) := by
  cases fin with
  | true => exact awake_fillAfterRead_fin h ht hf
  | false => exact awake_fillAfterRead_data h ht hf hn

theorem awake_receiveAfterWrite (ht : w.todo = .receiveAfterWrite :: rest) :
    Awake (receiveAfterWrite (w.pop rest)) := by
  unfold receiveAfterWrite
  split <;> constructor <;> grind [push]

theorem awake_sendAsync {chunk : Bytes} (ht : w.todo = .sendAsync chunk :: rest) (a : Answer) :
    Awake (sendAsync (w.pop rest) a chunk) := by
  unfold sendAsync
  split
  · constructor <;> grind [push, record]
  · constructor <;> grind [record]

theorem awake_receiveAsync (ht : w.todo = .receiveAsync :: rest) (a : Answer) :
    Awake (receiveAsync (w.pop rest) a) := by
  unfold receiveAsync
  split
  · constructor <;> grind [push, record]
  · constructor <;> grind [record]

theorem awake_start {seed : Bytes} (ht : w.todo = .start seed :: rest) (hp : w.tunnel.pendingToTcp = []) :
    Awake (start (w.pop rest) seed) := by
  have hlen : (w.launch seed).tunnel.pendingToTcp.length < kMaxQueuedChunks := by
    unfold launch
    simp only [hp]
    split <;> simp [kMaxQueuedChunks]
  have h' : Awake (w.pop rest) := h.pop ht rfl
  unfold start
  constructor <;> grind [push, noteActivity, launch]

variable {a : Answer}

theorem awake_read (ht : w.todo = .read :: rest)
    (hl' : has ending (read (w.pop rest) a).todo = false) : Awake (read (w.pop rest) a) := by
  unfold read at hl' ⊢
  obtain ⟨c, e, he⟩ := afterCall_live hl'
  obtain ⟨hb, hf, hcon, hfin⟩ := read_spec h.consumed
  have hr := read_more (s := w.stream)
  have hb' : (w.stream.read kReadSize).2.2.1.hasBufferedData = w.stream.hasBufferedData := by
    rw [hasBufferedData, hb]
    rfl
  simp only [he]
  generalize w.stream.read kReadSize = r at *
  have hemp : r.1 ≠ [] → r.1.isEmpty = false := by cases r.1 <;> simp
  constructor <;> grind [push, record, hasBufferedData, finished, QuictunStream.Consumed]

theorem awake_writeToStream (ht : w.todo = .writeToStream data fin :: rest)
    (hl' : has ending (writeToStream (w.pop rest) a data fin).todo = false) :
    Awake (writeToStream (w.pop rest) a data fin) := by
  unfold writeToStream at hl' ⊢
  obtain ⟨c, e, he⟩ := afterCall_live hl'
  obtain ⟨h1, h2, h3, h4, h5⟩ := w.stream.writeToStream_spec data fin a.taken a.finTaken
  simp only [he]
  generalize w.stream.writeToStream data fin a.taken a.finTaken = r at *
  constructor <;> grind [push, record, hasBufferedData, finished, QuictunStream.Consumed]

variable (hl : Live w)
include hl

theorem awake_onStreamDataAvailable (ht : w.todo = .onStreamDataAvailable :: rest) :
    Awake (onStreamDataAvailable (w.pop rest)) := by
  have hc := hl.opened
  unfold onStreamDataAvailable
  split
  · constructor <;> grind
  · constructor <;> grind [push]

theorem awake_sendComplete {st : Status} (ht : w.todo = .sendComplete st :: rest)
    (hl' : has ending (sendComplete (w.pop rest) st).todo = false) :
    Awake (sendComplete (w.pop rest) st) := by
  have hc := hl.opened
  unfold sendComplete at hl' ⊢
  constructor <;> grind [push, sendArrived]

theorem awake_receiveComplete {data : Received} (ht : w.todo = .receiveComplete data :: rest)
    (hl' : has ending (receiveComplete (w.pop rest) data).todo = false) :
    Awake (receiveComplete (w.pop rest) data) := by
  have hc := hl.opened
  unfold receiveComplete at hl' ⊢
  rw [if_neg (by simp [hc])] at hl' ⊢
  split
  · constructor <;> grind [push, receiveArrived, finishSending, sendDone]
  · constructor <;> grind [push, receiveArrived, noteActivity]
  · constructor <;> grind [push, receiveArrived]

theorem awake_onStreamCanWriteMore (ht : w.todo = .onStreamCanWriteMore :: rest) :
    Awake (onStreamCanWriteMore (w.pop rest)) := by
  have hc := hl.opened
  unfold onStreamCanWriteMore
  split
  · constructor <;> grind
  split
  · constructor <;> grind [push]
  split
  · constructor <;> grind [updateIdleClass]
  · constructor <;> grind [push, updateIdleClass]

theorem awake_maybeFlushQuicToTcp (ht : w.todo = .maybeFlushQuicToTcp :: rest) (hs : w.tunnel.hasSocket = true) :
    Awake (maybeFlushQuicToTcp (w.pop rest)) := by
  have hc := hl.opened
  unfold maybeFlushQuicToTcp
  split
  · constructor <;> grind
  split
  · constructor <;> grind [push]
  · constructor <;> grind [push, dequeued]

theorem awake_maybeCloseAfterQuicFin (ht : w.todo = .maybeCloseAfterQuicFin :: rest) :
    Awake (maybeCloseAfterQuicFin (w.pop rest)) := by
  have hc := hl.opened
  unfold maybeCloseAfterQuicFin
  split
  · constructor <;> grind
  split
  · constructor <;> grind [push]
  · constructor <;> grind [push, finishSending, sendDone]

theorem awake_beginReadFromTcp (ht : w.todo = .beginReadFromTcp :: rest) (hs : w.tunnel.hasSocket = true) :
    Awake (beginReadFromTcp (w.pop rest)) := by
  have hc := hl.opened
  unfold beginReadFromTcp
  split
  · constructor <;> grind
  · constructor <;> grind [push, receiveBegun]

end

theorem awake_maybeFinalizeClose (h : Awake w) : Awake w.maybeFinalizeClose := by
  unfold maybeFinalizeClose
  split
  · exact h
  split
  · exact Awake.push (w := w.cancelAlarm) { h with } rfl
  split
  · exact Awake.push (w := w.cancelAlarm) { h with } rfl
  · unfold armAlarm
    split
    · split
      · exact { h with }
      · exact h
    · exact { h with }

theorem exec_awake (hf : Fidelity w) (hb : FlushBelow w) (ht : w.todo = op :: rest)
    (hl : Live w) (h : Awake w) (hl' : Live ((w.pop rest).exec a op)) :
    Awake ((w.pop rest).exec a op) := by
  have hsock : op.running = true → w.tunnel.hasSocket = true := fun hr =>
    (hf.socket (hf.running (by rw [ht, has_cons, hr]; rfl)) hl.opened).2
  have hcl : op.closing = false := by
    by_contra hc
    rw [Bool.not_eq_false] at hc
    cases hl.opened.symm.trans (hf.closing (by rw [ht, has_cons, hc]; rfl))
  have hend := (Live.of_exec ht hl').2
  cases op with
  | start seed => exact awake_start h ht (hf.queue.fresh (hf.top (.start seed) (by rw [ht]; rfl)).2.1)
  | onStreamDataAvailable => exact awake_onStreamDataAvailable h hl ht
  | onStreamCanWriteMore => exact awake_onStreamCanWriteMore h hl ht
  | connectComplete st =>
    have h' := h.pop ht rfl
    simp only [exec, connectComplete]
    split
    · exact h'
    split
    · exact h'.push rfl
    · exact Awake.push (w := disconnected (w.pop rest)) { h' with } rfl
  | receiveComplete data => exact awake_receiveComplete h hl ht hl'.calm
  | sendComplete st => exact awake_sendComplete h hl ht hl'.calm
  | onFlushCloseAlarm | maybeFinalizeClose => exact awake_maybeFinalizeClose (h.pop ht rfl)
  | fillQueueFromStream => exact awake_fillQueueFromStream h ht
  | beginReadFromTcp => exact awake_beginReadFromTcp h hl ht (hsock rfl)
  | maybeFlushQuicToTcp => exact awake_maybeFlushQuicToTcp h hl ht (hsock rfl)
  | maybeCloseAfterQuicFin => exact awake_maybeCloseAfterQuicFin h hl ht
  | fillAfterRead data fin =>
    rw [FlushBelow, ht] at hb
    refine awake_fillAfterRead h ht (hb.1 rfl)
      (not_has_of_all (fun o ho => hf.below o (by rw [ht]; exact ho)) fun o ho => ?_)
    unfold Op.deferred at ho
    split at ho <;> trivial
  | receiveAfterWrite => exact awake_receiveAfterWrite h ht
  | receiveEnd | flushEnd => exact { h.pop ht rfl with }
  | read => exact awake_read h ht hl'.calm
  | writeToStream data fin => exact awake_writeToStream h ht hl'.calm
  | receiveAsync => exact awake_receiveAsync h ht a
  | sendAsync chunk => exact awake_sendAsync h ht a
  | onStreamGone | close => cases hend
  | _ => cases hcl

/-! ## Whole runs -/

def NoStopSending (_ : World) (e : Ev) : Prop := ∀ error, e ≠ .stopSending error

theorem Awake.notified {w : World} (h : Awake w) (ht : w.todo = []) {r : QuictunStream × Option QuictunStream.Notice}
    (hb : r.1.buffered = w.stream.buffered) (hf : r.1.finished = w.stream.finished)
    (hfr : r.1.finRead = w.stream.finRead)
    (hcon : r.1.Consumed) (hr : r.1.readable ≠ [] → w.stream.readable ≠ [] ∨ r.2 = some .dataAvailable) :
    Awake (w.notified r) := by
  unfold World.notified
  constructor <;> grind [hasBufferedData]

variable {w' : World} {e : Ev}

theorem deliver_awake (hc : NoStopSending w e) (ht : w.todo = []) (hw : w.deliver e = some w')
    (h : Awake w) (hl' : Live w') : Awake w' := by
  have hcall : ∀ {y x k} op, k.sending = w.socket.sending → k.receiving = w.socket.receiving →
    has finishing [op] = false →
      Awake { w with tunnel := { w.tunnel with hasSocket := x, flushCloseAlarm := y }, socket := k, todo := [op] } := by
    intro y x k op hs hr hop
    constructor <;> grind
  cases deliver_cases hw with
  | streamFrame bs fin =>
    obtain ⟨hb, hf, hfr, hcon, hr⟩ := onStreamFrame_spec h.consumed bs fin
    exact h.notified ht hb hf hfr hcon hr
  | streamReset error =>
    obtain ⟨hb, hf, hfr, hcon, hr⟩ := onStreamReset_spec h.consumed error
    exact h.notified ht hb hf hfr hcon fun hne => .inl (hr hne)
  | stopSending error => exact absurd rfl (hc error)
  | canWrite k f =>
    obtain ⟨hr, hfr, hfi, hf, hb⟩ := w.stream.onCanWrite_spec k f
    simp only [notified] at hl' ⊢
    generalize w.stream.onCanWrite k f = r at *
    constructor <;> grind [QuictunStream.Consumed]
  | ack k f => exact h.notified (r := (_, none)) ht rfl rfl rfl h.consumed .inl
  | connectionClosed =>
    have hq : w.stream.onConnectionClosed.2 = false := by
      by_contra hg
      rw [Bool.not_eq_false] at hg
      have hca := hl'.calm
      simp only [notified, goneIf, hg] at hca
      cases hca
    have h' : Awake (w.notified (goneIf w.stream.onConnectionClosed)) := by
      refine h.notified ht ?_ ?_ ?_ ?_ ?_ <;> simp only [goneIf, onConnectionClosed_quiet hq]
      · rfl
      · exact h.consumed
      · exact .inl
    exact { h' with }
  | dials => exact { h with }
  | receiveDone | sendDone => constructor <;> grind
  | _ => exact hcall _ rfl rfl rfl

structure Wakeful (w : World) : Prop extends Fidelity w where
  flushBelow : FlushBelow w
  awake : Live w → Awake w

theorem step_wakeful (h : Wakeful w) (hc : NoStopSending w e) (hw : w.step e = some w') : Wakeful w' := by
  have hf := step_fidelity h.toFidelity hw
  rcases step_cases hw with ⟨a, op, rest, -, ht, rfl⟩ | ⟨d, rfl⟩ | ⟨k, -, rfl⟩ | ⟨ht, hw⟩
  · refine ⟨hf, exec_flushBelow ht a h.flushBelow, fun hl' => ?_⟩
    obtain ⟨hl, -⟩ := Live.of_exec ht hl'
    exact exec_awake h.toFidelity h.flushBelow ht hl (h.awake hl) hl'
  · exact ⟨hf, h.flushBelow, fun hl => { h.awake { hl with } with }⟩
  · exact ⟨hf, h.flushBelow, fun hl => { h.awake { hl with } with }⟩
  · refine ⟨hf, ?_, fun hl' => ?_⟩
    · obtain ⟨x, y, s, k, c, ops, rfl, ho, -⟩ := deliver_eq ht hw
      unfold FlushBelow
      rcases ho with rfl | ⟨op, rfl, he⟩
      · trivial
      · cases op <;> first | (cases he; done) | exact ⟨nofun, trivial⟩
    · have hl : Live w := by
        obtain ⟨x, y, s, k, c, ops, rfl, -, -⟩ := deliver_eq ht hw
        exact ⟨hl'.opened, by rw [ht]; rfl⟩
      exact deliver_awake hc ht hw (h.awake hl) hl'

theorem init_wakeful (client : Bool) (seed : Bytes) {s : QuictunStream} (hs : s.Consumed) (hf : s.finished = false)
    (me : Nat) (k : QuictunIdleTracker Nat) (now : Time) : Wakeful (init client seed s me k now) where
  toFidelity := init_fidelity ..
  flushBelow := trivial
  awake _ := ⟨nofun, nofun, nofun, nofun, nofun, fun hf' => (by cases hf.symm.trans hf'), nofun, hs, nofun, nofun⟩

/-- **No lost wake-up.** Whenever no callback is running and the tunnel is started and not closed, whatever waits
has the operation in flight that will resume it. `STOP_SENDING` is left out. -/
theorem no_lost_wakeup (client : Bool) (seed : Bytes) (s : QuictunStream) (me : Nat) (k : QuictunIdleTracker Nat)
    (now : Time) (hs : s.Consumed) (hf : s.finished = false) (es : List Ev)
    (hes : ∀ e ∈ es, ∀ error, e ≠ .stopSending error) (w : World)
    (hrun : Lts.run step (init client seed s me k now) es = some w)
    (ht : w.todo = []) (hst : w.tunnel.started = true) (hcl : w.tunnel.closed = false) :
    (w.tunnel.pendingToTcp ≠ [] ∨ w.stream.readable ≠ [] → w.tunnel.tcpSendInFlight = true ∧ w.socket.sending = true) ∧
    (w.tunnel.tcpReceiveDone = false →
      (w.tunnel.tcpReceiveInFlight = true ∧ w.socket.receiving = true) ∨ w.stream.hasBufferedData = true) ∧
    (w.stream.finRead = true → w.tunnel.pendingToTcp = [] → w.tunnel.tcpSendInFlight = false →
      w.tunnel.tcpReceiveDone = true) := by
  have hall : Lts.AllSteps step NoStopSending (init client seed s me k now) es :=
    Lts.allSteps_of_forall _ fun e he _ => hes e he
  have h : Wakeful w :=
    Lts.run_inv_of (fun _ _ _ hi hc hw => step_wakeful hi hc hw) (init_wakeful client seed hs hf me k now) hall hrun
  have ha := h.awake ⟨hcl, by rw [ht]; rfl⟩
  have hsend : w.tunnel.pendingToTcp ≠ [] → w.tunnel.tcpSendInFlight = true := by
    intro hp
    have := ha.queued hst hp
    simpa [ht] using this
  refine ⟨fun hd => ?_, fun hn => ?_, fun hfr hp hi => ?_⟩
  · have hi : w.tunnel.tcpSendInFlight = true := by
      rcases hd with hp | hr
      · exact hsend hp
      · rcases ha.unread hst hr with hfull | hi | hrf
        · refine hsend fun hp => ?_
          rw [hp] at hfull
          cases hfull
        · exact hi
        · rw [ht] at hrf
          cases hrf
    have := ha.sending hi
    exact ⟨hi, by simpa [ht] using this⟩
  · rcases ha.receiving hst hn with hi | hb | hr
    · have := ha.receive hi
      exact .inl ⟨hi, by simpa [ht] using this⟩
    · exact .inr hb
    · rw [ht] at hr
      cases hr
  · have hq : w.tunnel.quicReceiveDone = true := by
      have := ha.finRead hst hfr
      simpa [ht] using this
    have := ha.finDone hst hq hp hi
    simpa [ht] using this

theorem no_lost_wakeup_seededStart : ∃ w, Lts.run step (init true [] {} 0 {} 0) seededStart = some w ∧
    w.tunnel.pendingToTcp = [[3, 4]] ∧ w.tunnel.tcpSendInFlight = true ∧ w.socket.sending = true := by
  refine ⟨_, rfl, rfl, (no_lost_wakeup true [] {} 0 {} 0 (fun h => by cases h) rfl seededStart ?_ _ rfl rfl rfl rfl).1
    (.inl (fun h => by cases h))⟩
  intro e he error heq
  subst heq
  simp [seededStart] at he

end World

end Quictun
