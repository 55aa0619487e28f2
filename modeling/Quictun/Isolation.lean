import Mathlib.Logic.Function.Basic
import Mathlib.Data.Set.Defs
import Quictun.ControlFrames
import Quictun.ReceiveStream
import Quictun.Stream

/-!
# Tunnels that fail next to each other

What closing a tunnel does to its connection goes through three things all of them share:
the queue of control frames, the session's flow controller, and the limit on incoming
streams. An abandoned tunnel is worked off call by call (`todo`), each call queueing at most
one control frame; a queue that is full makes the session close the connection, and its
owner then closes every tunnel there is.
-/

namespace Quictun

open List Receiver QuicControlFrameManager

/-- Why a tunnel, or a stream that never became one, is given up. -/
inductive Failure
  | receiveError | sendError | connectFailed | rejectedKey | idle | stalled | flushWaitExceeded
deriving DecidableEq

structure StreamEnd where
  stream : QuicStream
  /-- In `key_read_buffers_`: no tunnel yet. -/
  authenticating : Bool := false
  keyReadBuffer : Bytes := []
  stopSendingSent : Bool := false
  rstSent : Bool := false
  wasDraining : Bool := false
  streamBytesWritten : Nat := 0
  sendBuffer : Bytes := []
  quicToTcpQueue : List Bytes := []
  socketDisconnected : Bool := false
  closed : Bool := false
deriving DecidableEq

inductive CloseCall
  | stopReading (id : Nat)
  | disconnect (id : Nat)
  | maybeSendStopSending (id : Nat) (error : QuicRstStreamErrorCode)
  | maybeSendRstStream (id : Nat) (error : QuicRstStreamErrorCode)
  | closeReadSide (id : Nat)
  | closeWriteSide (id : Nat)
  | sendWindowUpdate (id : Option Nat)
  | onStreamClosed
deriving DecidableEq

structure SharedConnection where
  server : Bool
  connected : Bool := true
  controlFrames : QuicControlFrameManager
  flowController : QuicFlowController
  locallyClosed : Nat → Option Nat := fun _ => none
  incomingActualMaxStreams : Nat
  incomingAdvertisedMaxStreams : Nat
  incomingInitialMaxOpenStreams : Nat
  incomingStreamCount : Nat
  streams : Nat → Option StreamEnd
  todo : List CloseCall := []

namespace SharedConnection

def maxStreamCount : Nat := 2 ^ 30
def maxStreamsWindowDivisor : Nat := 2

/-! ## One call -/

section
variable (c : SharedConnection)

def receiver (id : Nat) (t : StreamEnd) : Receiver :=
  ⟨t.stream, c.flowController, c.locallyClosed id⟩

def setStream (id : Nat) (t : StreamEnd) : SharedConnection :=
  { c with streams := Function.update c.streams id (some t) }

def setReceiver (id : Nat) (t : StreamEnd) (v : Receiver) : SharedConnection :=
  { c.setStream id { t with stream := v.stream } with
    flowController := v.session
    locallyClosed := Function.update c.locallyClosed id v.locallyClosed }

def call (calls : List CloseCall) : SharedConnection := { c with todo := calls ++ c.todo }

def windowUpdates (id : Nat) (v v' : Receiver) : List CloseCall :=
  (if v.stream.flowController.receiveWindowOffset = v'.stream.flowController.receiveWindowOffset then []
    else [.sendWindowUpdate (some id)]) ++
  (if v.session.receiveWindowOffset = v'.session.receiveWindowOffset then [] else [.sendWindowUpdate none])

/-- `QuicSession::OnStreamClosed()` tells the stream id manager about an incoming stream that closes with
its final offset known, unless it did so when the stream began to drain. -/
def streamClosed (t : StreamEnd) (v v' : Receiver) : List CloseCall :=
  if c.server && !v.stream.closed && v'.stream.closed && v'.stream.hasReceivedFinalOffset && !t.wasDraining then
    [.onStreamClosed]
  else []

def sendsMaxStreams : Bool :=
  decide (c.incomingActualMaxStreams ≠ maxStreamCount) &&
  decide (c.incomingAdvertisedMaxStreams - c.incomingStreamCount ≤
    c.incomingInitialMaxOpenStreams / maxStreamsWindowDivisor) &&
  decide (c.controlFrames.numBufferedMaxStreamFrames < 2) &&
  decide (c.incomingAdvertisedMaxStreams < c.incomingActualMaxStreams + 1)

def frameOf : CloseCall → Option QuicFrame
  | .maybeSendStopSending id error => (c.streams id).bind fun t =>
    if t.stopSendingSent then none else some (.stopSending id error)
  | .maybeSendRstStream id error => (c.streams id).bind fun t =>
    if t.rstSent then none else some (.rstStream id error t.streamBytesWritten)
  | .sendWindowUpdate (some id) => (c.streams id).map fun t =>
    .windowUpdate (some id) t.stream.flowController.receiveWindowOffset
  | .sendWindowUpdate none => some (.windowUpdate none c.flowController.receiveWindowOffset)
  | .onStreamClosed => if c.sendsMaxStreams then some (.maxStreams (c.incomingActualMaxStreams + 1)) else none
  | _ => none

def effect : CloseCall → SharedConnection
  | .stopReading id =>
    match c.streams id with
    | none => c
    | some t =>
      let v := c.receiver id t
      let v' := v.stopReading
      (c.setReceiver id t v').call (windowUpdates id v v' ++ c.streamClosed t v v')
  | .disconnect id =>
    match c.streams id with
    | none => c
    | some t => c.setStream id { t with socketDisconnected := true, quicToTcpQueue := [] }
  | .maybeSendStopSending id _ =>
    match c.streams id with
    | none => c
    | some t => if t.stopSendingSent then c else (c.setStream id { t with stopSendingSent := true }).call
      [.closeReadSide id]
  | .maybeSendRstStream id _ =>
    match c.streams id with
    | none => c
    | some t =>
      if t.rstSent then c else (c.setStream id { t with rstSent := true, sendBuffer := [] }).call [.closeWriteSide id]
  | .closeReadSide id =>
    match c.streams id with
    | none => c
    | some t =>
      let v := c.receiver id t
      let v' := v.closeReadSide
      (c.setReceiver id t v').call (c.streamClosed t v v' ++ windowUpdates id v v')
  | .closeWriteSide id =>
    match c.streams id with
    | none => c
    | some t =>
      let v := c.receiver id t
      let v' := v.closeWriteSide
      (c.setReceiver id t v').call (c.streamClosed t v v' ++ windowUpdates id v v')
  | .sendWindowUpdate _ => c
  | .onStreamClosed =>
    if c.incomingActualMaxStreams = maxStreamCount then c
    else
      { c with
        incomingActualMaxStreams := c.incomingActualMaxStreams + 1
        incomingAdvertisedMaxStreams :=
          if c.sendsMaxStreams then c.incomingActualMaxStreams + 1 else c.incomingAdvertisedMaxStreams }

def closeEnd (t : StreamEnd) : StreamEnd :=
  { t with closed := true, socketDisconnected := true, keyReadBuffer := [], sendBuffer := [], quicToTcpQueue := [] }

-- the calls that are left find the connection and everything on it closed
def closeConnection : SharedConnection :=
  { c with connected := false, streams := fun id => (c.streams id).map closeEnd, todo := [] }

def manage (r : Except ControlFrameError QuicControlFrameManager) : SharedConnection :=
  match r with
  | .ok m => { c with controlFrames := m }
  | .error _ => c.closeConnection

def exec (k : CloseCall) (taken : Nat) : SharedConnection :=
  match c.frameOf k with
  | none => c.effect k
  | some frame =>
    match c.controlFrames.writeOrBuffer frame taken with
    | .ok m => { c with controlFrames := m }.effect k
    | .error _ => c.closeConnection

end

/-! ## Runs -/

inductive Ev
  | abandon (id : Nat) (why : Failure)
  | exec (taken : Nat)
  | onCanWrite (taken : Nat)
  | acked (f : ControlFrame)
  | lost (f : ControlFrame)
deriving DecidableEq

section
variable (c : SharedConnection)

/-- A key can only be rejected, and a target dialled, on the server. -/
def mayAbandon (t : StreamEnd) (why : Failure) : Bool :=
  !t.closed && (t.authenticating == (why == .rejectedKey)) &&
    (c.server || (why != .rejectedKey && why != .connectFailed))

/-- `QuictunTunnel::Close(reason, true)`, or the server's `Reset()` of a stream whose key it rejects. -/
def closeCalls (id : Nat) : Failure → List CloseCall
  | .rejectedKey => [.maybeSendStopSending id .badApplicationPayload, .maybeSendRstStream id .badApplicationPayload]
  | _ => [.stopReading id, .disconnect id, .maybeSendStopSending id .streamCancelled,
    .maybeSendRstStream id .streamCancelled]

def abandon (id : Nat) (t : StreamEnd) (why : Failure) : SharedConnection :=
  { c.setStream id { t with closed := true, keyReadBuffer := [] } with todo := closeCalls id why }

def step : Ev → Option SharedConnection
  | .abandon id why =>
    match c.todo, c.streams id with
    | [], some t => if c.connected && c.mayAbandon t why then some (c.abandon id t why) else none
    | _, _ => none
  | .exec taken =>
    match c.todo with
    | [] => none
    | k :: rest => some ({ c with todo := rest }.exec k taken)
  | .onCanWrite taken =>
    if c.connected && c.todo.isEmpty then some (c.manage (c.controlFrames.onCanWrite taken)) else none
  | .acked f =>
    if c.connected && c.todo.isEmpty && decide (f ∈ c.controlFrames.sent) then
      some (c.manage (c.controlFrames.onControlFrameAcked f))
    else none
  | .lost f =>
    if c.connected && c.todo.isEmpty && decide (f ∈ c.controlFrames.sent) then
      some (c.manage (c.controlFrames.onControlFrameLost f))
    else none

/-- In the queue, and among the ids. -/
def hasRoom : Ev → Prop
  | .exec _ => ∀ k ∈ c.todo.head?, (c.frameOf k).isSome →
    c.controlFrames.controlFrames.length < kMaxNumControlFrames ∧ c.controlFrames.lastControlFrameId + 2 < 2 ^ 32
  | _ => True

end

instance (c : SharedConnection) : ∀ e, Decidable (c.hasRoom e)
  | .exec _ => by unfold hasRoom; infer_instance
  | .abandon .. | .onCanWrite _ | .acked _ | .lost _ => .isTrue trivial

/-! ## What an abandoned stream can reach -/

def target : CloseCall → Option Nat
  | .stopReading id | .disconnect id | .maybeSendStopSending id _ | .maybeSendRstStream id _ | .closeReadSide id
  | .closeWriteSide id => some id
  | .sendWindowUpdate id => id
  | .onStreamClosed => none

def within (A : Set Nat) (k : CloseCall) : Prop := ∀ id, target k = some id → id ∈ A

structure Isolated (A : Set Nat) (old : Nat → Option StreamEnd) (c : SharedConnection) : Prop where
  connected : c.connected = true
  valid : c.controlFrames.Valid
  kept : ∀ id, id ∉ A → c.streams id = old id
  todo : ∀ k ∈ c.todo, within A k

section
variable {A : Set Nat} {old : Nat → Option StreamEnd} {c : SharedConnection} (h : Isolated A old c)
include h

theorem Isolated.setStream {id : Nat} (hid : id ∈ A) (t : StreamEnd) : Isolated A old (c.setStream id t) := by
  refine { h with kept := ?_ }
  intro j hj
  have hne : j ≠ id := fun e => hj (e ▸ hid)
  exact (Function.update_of_ne hne _ _).trans (h.kept j hj)

theorem Isolated.setReceiver {id : Nat} (hid : id ∈ A) (t : StreamEnd) (v : Receiver) :
    Isolated A old (c.setReceiver id t v) :=
  { h.setStream hid { t with stream := v.stream } with }

theorem Isolated.call {ks : List CloseCall} (hks : ∀ k ∈ ks, within A k) : Isolated A old (c.call ks) := by
  refine { h with todo := ?_ }
  intro k hk
  obtain hk | hk := mem_append.1 hk
  · exact hks k hk
  · exact h.todo k hk

omit h in
theorem within_windowUpdates {id : Nat} (hid : id ∈ A) (v v' : Receiver) : ∀ k ∈ windowUpdates id v v', within A k := by
  intro k hk j hj
  simp only [windowUpdates, mem_append, mem_ite_nil_left, mem_singleton] at hk
  obtain ⟨-, rfl⟩ | ⟨-, rfl⟩ := hk
  · exact Option.some.inj hj ▸ hid
  · cases hj

omit h in
theorem within_streamClosed (t : StreamEnd) (v v' : Receiver) : ∀ k ∈ c.streamClosed t v v', within A k := by
  intro k hk j hj
  simp only [streamClosed, mem_ite_nil_right, mem_singleton] at hk
  obtain ⟨-, rfl⟩ := hk
  cases hj

theorem Isolated.effect {k : CloseCall} (hk : within A k) : Isolated A old (c.effect k) := by
  have happ {ks ls : List CloseCall} (h1 : ∀ k ∈ ks, within A k) (h2 : ∀ k ∈ ls, within A k) :
    ∀ k ∈ ks ++ ls, within A k :=
    fun k hk => (mem_append.1 hk).elim (h1 k) (h2 k)
  unfold SharedConnection.effect
  cases k with
  | stopReading id =>
    dsimp only
    split
    · exact h
    · exact (h.setReceiver (hk id rfl) _ _).call
        (happ (within_windowUpdates (hk id rfl) _ _) (within_streamClosed _ _ _))
  | disconnect id =>
    dsimp only
    split
    · exact h
    · exact h.setStream (hk id rfl) _
  | maybeSendStopSending id | maybeSendRstStream id =>
    dsimp only
    split
    · exact h
    · split
      · exact h
      · refine (h.setStream (hk id rfl) _).call ?_
        intro k hmem
        obtain rfl := mem_singleton.1 hmem
        exact hk
  | closeReadSide id | closeWriteSide id =>
    dsimp only
    split
    · exact h
    · exact (h.setReceiver (hk id rfl) _ _).call
        (happ (within_streamClosed _ _ _) (within_windowUpdates (hk id rfl) _ _))
  | sendWindowUpdate => exact h
  | onStreamClosed =>
    dsimp only
    split
    · exact h
    · exact { h with }

theorem Isolated.manage {r : Except ControlFrameError QuicControlFrameManager}
    (hr : ∃ m, r = .ok m ∧ m.Valid) : Isolated A old (c.manage r) := by
  obtain ⟨m, rfl, hv⟩ := hr
  exact { h with valid := hv }

theorem Isolated.exec {k : CloseCall} (hk : within A k) (taken : Nat)
    (hroom : (c.frameOf k).isSome →
      c.controlFrames.controlFrames.length < kMaxNumControlFrames ∧ c.controlFrames.lastControlFrameId + 2 < 2 ^ 32) :
    Isolated A old (c.exec k taken) := by
  unfold SharedConnection.exec
  split
  · exact h.effect hk
  next frame hf =>
    obtain ⟨m, hm, hv⟩ := h.valid.writeOrBuffer frame taken (hroom (hf ▸ rfl)).1 (hroom (hf ▸ rfl)).2
    rw [hm]
    have h' : Isolated A old { c with controlFrames := m } := { h with valid := hv }
    exact h'.effect hk

theorem Isolated.abandon {id : Nat} (hid : id ∈ A) (t : StreamEnd) (why : Failure) :
    Isolated A old (c.abandon id t why) := by
  refine { h.setStream hid { t with closed := true, keyReadBuffer := [] } with todo := fun k hk j hj => ?_ }
  have hj : j = id := by
    cases why <;> simp [SharedConnection.abandon, closeCalls] at hk <;> grind [target]
  exact hj ▸ hid

theorem Isolated.step {e : Ev} {c' : SharedConnection} (hroom : c.hasRoom e)
    (hA : ∀ id why, e = .abandon id why → id ∈ A) (hs : c.step e = some c') : Isolated A old c' := by
  cases e with
  | abandon id why =>
    simp only [SharedConnection.step] at hs
    split at hs
    next t _ _ =>
      split at hs
      · exact Option.some.inj hs ▸ h.abandon (hA id why rfl) t why
      · cases hs
    · cases hs
  | exec taken =>
    simp only [SharedConnection.step] at hs
    split at hs
    · cases hs
    next k rest hrest =>
      rw [← Option.some.inj hs]
      have h' : Isolated A old { c with todo := rest } :=
        { h with todo := fun k hk => h.todo k (hrest ▸ mem_cons_of_mem _ hk) }
      refine h'.exec (h.todo k (hrest ▸ mem_cons_self)) taken ?_
      -- what the call queues does not depend on the calls behind it
      intro hf
      refine hroom k (by rw [hrest]; rfl) ?_
      cases k with
      | sendWindowUpdate id => cases id <;> exact hf
      | stopReading | disconnect | maybeSendStopSending | maybeSendRstStream | closeReadSide | closeWriteSide
      | onStreamClosed => exact hf
  | onCanWrite taken =>
    simp only [SharedConnection.step] at hs
    split at hs
    · exact Option.some.inj hs ▸ h.manage (h.valid.onCanWrite taken)
    · cases hs
  | acked f =>
    simp only [SharedConnection.step, Bool.and_eq_true, decide_eq_true_eq] at hs
    split at hs
    next hf => exact Option.some.inj hs ▸ h.manage (h.valid.onControlFrameAcked hf.2)
    · cases hs
  | lost f =>
    simp only [SharedConnection.step, Bool.and_eq_true, decide_eq_true_eq] at hs
    split at hs
    next hf => exact Option.some.inj hs ▸ h.manage (h.valid.onControlFrameLost hf.2)
    · cases hs

end

/-! ## A queue that fills up -/

def idleWindow (w : Nat) : QuicFlowController := { receiveWindowOffset := w, receiveWindowSize := w }

def idleEnd (w : Nat) : StreamEnd := { stream := { flowController := idleWindow w }, quicToTcpQueue := [[0x41]] }

def idleEndAt (w i : Nat) : StreamEnd :=
  { stream :=
      { flowController := idleWindow w
        sequencer := { ignoreReadData := decide (0 < i) }
        readSideClosed := decide (3 < i)
        writeSideClosed := decide (5 < i) }
    stopSendingSent := decide (2 < i)
    rstSent := decide (4 < i)
    quicToTcpQueue := if 1 < i then [] else [[0x41]]
    socketDisconnected := decide (1 < i)
    closed := true }

/-- A client's connection on which nothing is received meanwhile, and all its sends are blocked: stream `id` has come
to `t`, with the calls `ks` to go, and `n` control frames wait. -/
structure Closing (w : Nat) (old : Nat → Option StreamEnd) (id : Nat) (t : StreamEnd) (ks : List CloseCall) (n : Nat)
    (c : SharedConnection) : Prop where
  connected : c.connected = true
  client : c.server = false
  window : c.flowController = idleWindow w
  todo : c.todo = ks
  stream : c.streams id = some t
  others : ∀ j, j ≠ id → c.streams j = old j
  length : c.controlFrames.controlFrames.length = n
  unsent : c.controlFrames.leastUnacked = 1 ∧ c.controlFrames.leastUnsent = 1

section
variable {old : Nat → Option StreamEnd} {w id n : Nat} {t : StreamEnd} {ks : List CloseCall} {c : SharedConnection}

theorem Closing.setStream (h : Closing w old id t ks n c) (t' : StreamEnd) (calls : List CloseCall) :
    Closing w old id t' (calls ++ ks) n ((c.setStream id t').call calls) where
  connected := h.connected
  client := h.client
  window := h.window
  todo := congrArg (calls ++ ·) h.todo
  stream := Function.update_self ..
  others := fun j hj => (Function.update_of_ne hj _ _).trans (h.others j hj)
  length := h.length
  unsent := h.unsent

theorem Closing.setReceiver (h : Closing w old id t ks n c) {v : Receiver} (hv : v.session = idleWindow w)
    (calls : List CloseCall) :
    Closing w old id { t with stream := v.stream } (calls ++ ks) n ((c.setReceiver id t v).call calls) :=
  { h.setStream { t with stream := v.stream } calls with window := hv }

variable {k : CloseCall} {u : StreamEnd} {ks' : List CloseCall}

theorem Closing.silent (h : Closing w old id t (k :: ks) n c) (hf : ∀ c, Closing w old id t ks n c → c.frameOf k = none)
    (he : ∀ c, Closing w old id t ks n c → Closing w old id u ks' n (c.effect k)) :
    ∃ c', step c (.exec 0) = some c' ∧ Closing w old id u ks' n c' := by
  have h' : Closing w old id t ks n { c with todo := ks } := { h with todo := rfl }
  refine ⟨_, ?_, he _ h'⟩
  simp only [step, h.todo, exec, hf _ h']

theorem Closing.queues (h : Closing w old id t (k :: ks) n c)
    (hn : n < kMaxNumControlFrames) {f : QuicFrame} (hf : ∀ c, Closing w old id t ks n c → c.frameOf k = some f)
    (he : ∀ c, Closing w old id t ks (n + 1) c → Closing w old id u ks' (n + 1) (c.effect k)) :
    ∃ c', step c (.exec 0) = some c' ∧ Closing w old id u ks' (n + 1) c' := by
  have h' : Closing w old id t ks n { c with todo := ks } := { h with todo := rfl }
  have hlen : (c.controlFrames.enqueue f).controlFrames.length = n + 1 := by
    simp only [enqueue, length_append, h.length, length_singleton]
  have hw : c.controlFrames.writeOrBuffer f 0 = .ok ((c.controlFrames.enqueue f).countMaxStreams f) := by
    have hb : (c.controlFrames.enqueue f).writeBufferedFrames 0 = .ok (c.controlFrames.enqueue f) := by
      have hi : (c.controlFrames.enqueue f).index (c.controlFrames.enqueue f).leastUnsent = 0 := by
        simp [index, enqueue, h.unsent]
      rw [writeBufferedFrames, writeFrames, nextBuffered, frameAt, hi, getElem?_eq_getElem (by omega)]
      split <;> rfl
    unfold writeOrBuffer
    rw [if_neg (by omega), hb]
    split <;> rfl
  have hcount : ((c.controlFrames.enqueue f).countMaxStreams f).controlFrames.length = n + 1 := by
    cases f <;> exact hlen
  have hunsent : ((c.controlFrames.enqueue f).countMaxStreams f).leastUnacked = 1 ∧
      ((c.controlFrames.enqueue f).countMaxStreams f).leastUnsent = 1 := by
    cases f <;> exact h.unsent
  refine ⟨_, ?_, he { c with todo := ks, controlFrames := (c.controlFrames.enqueue f).countMaxStreams f }
    { h' with length := hcount, unsent := hunsent }⟩
  simp only [step, h.todo, exec, hf _ h', hw]

end

@[simp] theorem addBytesConsumed_idleWindow (w : Nat) : (idleWindow w).addBytesConsumed 0 = idleWindow w := by
  simp [QuicFlowController.addBytesConsumed, QuicFlowController.maybeSendWindowUpdate,
    QuicFlowController.availableWindow,
    idleWindow, Nat.div_le_self]

theorem stopReading_idle (w : Nat) (o : Option Nat) :
    Receiver.stopReading ⟨(idleEndAt w 0).stream, idleWindow w, o⟩ =
      ⟨(idleEndAt w 1).stream, idleWindow w, o⟩ := by
  simp [stopReading, flushBufferedFrames, maybeCloseStream, addBytesConsumed,
    setSequencer, QuicStreamSequencer.isClosed, QuicStreamSequencer.clear, IntervalSet.sup, idleEndAt]

theorem closeReadSide_idle (w : Nat) (o : Option Nat) :
    Receiver.closeReadSide ⟨(idleEndAt w 3).stream, idleWindow w, o⟩ =
      ⟨(idleEndAt w 4).stream, idleWindow w, o⟩ := rfl

theorem closeWriteSide_idle (w : Nat) (o : Option Nat) :
    Receiver.closeWriteSide ⟨(idleEndAt w 5).stream, idleWindow w, o⟩ =
      ⟨(idleEndAt w 6).stream, idleWindow w, some 0⟩ := by
  have hv : QuicFlowController.flowControlViolation (idleWindow w) = false := by
    simp [QuicFlowController.flowControlViolation, idleWindow]
  have h0 : (idleWindow w).highestReceivedByteOffset = 0 ∧ (idleWindow w).bytesConsumed = 0 := ⟨rfl, rfl⟩
  simp [closeWriteSide, releaseWrite, onStreamClosed, QuicStream.hasReceivedFinalOffset,
    onClose, flowControlViolation, addBytesConsumed, highest, hv, h0, idleEndAt]

def closing (id : Nat) : List Ev :=
  (.abandon id .sendError :: replicate 2 (.exec 0)) ++ replicate 4 (.exec 0)

variable {c : SharedConnection} {n w id : Nat}

theorem run_toReset (h : Closing w c.streams id (idleEnd w) [] n c) :
    ∃ c', Lts.run step c (.abandon id .sendError :: replicate 2 (.exec 0)) = some c' ∧
      Closing w c.streams id (idleEndAt w 2)
        [.maybeSendStopSending id .streamCancelled, .maybeSendRstStream id .streamCancelled] n c' := by
  have h1 : Closing w c.streams id (idleEndAt w 0) (closeCalls id .sendError) n
      (c.abandon id (idleEnd w) .sendError) :=
    { h.setStream (idleEndAt w 0) (closeCalls id .sendError) with todo := rfl }
  have hs1 : step c (.abandon id .sendError) = some (c.abandon id (idleEnd w) .sendError) := by
    simp [step, h.todo, h.stream, h.connected, mayAbandon, h.client, idleEnd]
  obtain ⟨c₂, hs2, h2⟩ := h1.silent (k := .stopReading id) (u := idleEndAt w 1)
      (fun _ _ => rfl) (fun c h => by
    simp only [effect, h.stream, receiver, h.window, stopReading_idle]
    simp only [windowUpdates, streamClosed, h.client, idleEndAt, if_pos, Bool.false_and, Bool.false_eq_true, if_false,
      append_nil]
    exact h.setReceiver (v := ⟨_, _, c.locallyClosed id⟩) rfl [])
  obtain ⟨c₃, hs3, h3⟩ := h2.silent (k := .disconnect id) (u := idleEndAt w 2)
      (fun _ _ => rfl) (fun c h => by
    simp only [effect, h.stream]
    exact h.setStream _ [])
  refine ⟨c₃, ?_, h3⟩
  simp [Lts.run, hs1, hs2, hs3, replicate]

theorem run_closing (h : Closing w c.streams id (idleEnd w) [] n c) (hn : n + 2 ≤ kMaxNumControlFrames) :
    ∃ c', Lts.run step c (closing id) = some c' ∧
      Closing w c.streams id (idleEndAt w 6) [] (n + 2) c' := by
  obtain ⟨c₃, hs3, h3⟩ := run_toReset h
  obtain ⟨c₄, hs4, h4⟩ := h3.queues (k := .maybeSendStopSending id .streamCancelled)
      (u := idleEndAt w 3) (by omega)
      (fun c h => by simp only [frameOf, h.stream]; rfl) (fun c h => by
    simp only [effect, h.stream]
    exact h.setStream _ [.closeReadSide id])
  obtain ⟨c₅, hs5, h5⟩ := h4.silent (k := .closeReadSide id) (u := idleEndAt w 4)
      (fun _ _ => rfl) (fun c h => by
    simp only [effect, h.stream, receiver, h.window, closeReadSide_idle]
    simp only [windowUpdates, streamClosed, h.client, idleEndAt, if_pos, Bool.false_and, Bool.false_eq_true, if_false,
      append_nil]
    exact h.setReceiver (v := ⟨_, _, c.locallyClosed id⟩) rfl [])
  obtain ⟨c₆, hs6, h6⟩ := h5.queues (k := .maybeSendRstStream id .streamCancelled)
      (u := idleEndAt w 5) (by omega)
      (fun c h => by simp only [frameOf, h.stream]; rfl) (fun c h => by
    simp only [effect, h.stream]
    exact h.setStream _ [.closeWriteSide id])
  obtain ⟨c₇, hs7, h7⟩ := h6.silent (k := .closeWriteSide id) (u := idleEndAt w 6)
      (fun _ _ => rfl) (fun c h => by
    simp only [effect, h.stream, receiver, h.window, closeWriteSide_idle]
    simp only [windowUpdates, streamClosed, h.client, idleEndAt, if_pos, Bool.false_and, Bool.false_eq_true, if_false,
      append_nil]
    exact h.setReceiver (v := ⟨_, _, some 0⟩) rfl [])
  refine ⟨c₇, Lts.run_append.2 ⟨c₃, hs3, ?_⟩, h7⟩
  simp [Lts.run, hs4, hs5, hs6, hs7, replicate]

def crowd (w n : Nat) : SharedConnection where
  server := false
  controlFrames := {}
  flowController := idleWindow w
  incomingActualMaxStreams := 0
  incomingAdvertisedMaxStreams := 0
  incomingInitialMaxOpenStreams := 0
  incomingStreamCount := 0
  streams := fun id => if id % 4 = 0 ∧ id < 4 * n then some (idleEnd w) else none

theorem crowd_streams (h : id % 4 = 0 ∧ id < 4 * n) : (crowd w n).streams id = some (idleEnd w) := if_pos h

theorem run_closings {w n : Nat} : ∀ k, k < n → 2 * k ≤ kMaxNumControlFrames →
    ∃ c, Lts.run step (crowd w n) ((range k).flatMap fun i => closing (4 * i)) = some c ∧
      Closing w c.streams (4 * k) (idleEnd w) [] (2 * k) c ∧ ∀ j, 4 * k ≤ j → c.streams j = (crowd w n).streams j
  | 0, hk, _ => by
    refine ⟨crowd w n, rfl, ⟨rfl, rfl, rfl, rfl, ?_, fun _ _ => rfl, rfl, rfl, rfl⟩, fun _ _ => rfl⟩
    exact crowd_streams ⟨rfl, by omega⟩
  | k + 1, hk, hroom => by
    obtain ⟨c, hr, h, hold⟩ := run_closings (w := w) (n := n) k (by omega) (by omega)
    obtain ⟨c', hr', h'⟩ := run_closing h (by omega)
    have hkept : ∀ j, 4 * (k + 1) ≤ j → c'.streams j = (crowd w n).streams j := fun j hj =>
      (h'.others j (by omega)).trans (hold j (by omega))
    refine ⟨c', ?_, { h' with stream := ?_, others := fun _ _ => rfl }, hkept⟩
    · rw [range_succ, flatMap_append, flatMap_singleton]
      exact Lts.run_append.2 ⟨c, hr, hr'⟩
    · rw [hkept _ le_rfl]
      exact crowd_streams ⟨by omega, by omega⟩

theorem Closing.overflows {old : Nat → Option StreamEnd} {t : StreamEnd} {ks : List CloseCall}
    {k : CloseCall} (h : Closing w old id t (k :: ks) kMaxNumControlFrames c) {f : QuicFrame}
    (hf : ∀ c, Closing w old id t ks kMaxNumControlFrames c → c.frameOf k = some f) :
    ∃ c', step c (.exec 0) = some c' ∧ c'.connected = false ∧ ∀ j, c'.streams j = (c.streams j).map closeEnd := by
  have h' : Closing w old id t ks kMaxNumControlFrames { c with todo := ks } := { h with todo := rfl }
  have hw : c.controlFrames.writeOrBuffer f 0 = .error .tooManyBufferedControlFrames := by
    unfold writeOrBuffer
    rw [if_pos]
    simp only [enqueue, length_append, h.length, length_singleton]
    omega
  refine ⟨closeConnection { c with todo := ks }, ?_, rfl, fun _ => rfl⟩
  simp only [step, h.todo, exec, hf _ h', hw]

/-! ## Isolation -/

/-- **Failing tunnels are isolated** as long as no control frame is queued behind a thousand others and the ids of
control frames last: the connection stays up and every other stream is left exactly as it was. -/
theorem failures_isolated {c₀ c : SharedConnection} {ms : List QuicControlFrameManager.Call} {es : List Ev}
    (hm : Lts.run QuicControlFrameManager.step {} ms = some c₀.controlFrames)
    (hids : Lts.AllSteps QuicControlFrameManager.step hasId {} ms) (hc : c₀.connected = true) (ht : c₀.todo = [])
    (hr : Lts.run step c₀ es = some c) (hroom : Lts.AllSteps step hasRoom c₀ es) :
    c.connected = true ∧ ∀ id, (∀ why, Ev.abandon id why ∉ es) → c.streams id = c₀.streams id := by
  let A : Set Nat := { id | ∃ why, Ev.abandon id why ∈ es }
  have hinit : Isolated A c₀.streams c₀ :=
    { connected := hc
      valid := valid_of_run hm hids
      kept := fun _ _ => rfl
      todo := by simp [ht] }
  have hA : ∀ e ∈ es, ∀ id why, e = Ev.abandon id why → id ∈ A := by
    rintro e he id why rfl
    exact ⟨why, he⟩
  have h : Isolated A c₀.streams c :=
    Lts.run_inv_of (fun c e c' h hP hs => h.step hP.1 hP.2 hs) hinit (Lts.allSteps_and_forall hroom hA) hr
  refine ⟨h.connected, fun id hid => h.kept id ?_⟩
  rintro ⟨why, hmem⟩
  exact hid why hmem

theorem failures_isolated_twoOfThree : let c :=
    (Lts.run step (crowd 65536 3) (closing 0 ++ closing 4)).getD (crowd 65536 3)
    c.connected = true ∧ c.streams 8 = some (idleEnd 65536) := by
  intro c
  have h := @failures_isolated (crowd 65536 3) c [] (closing 0 ++ closing 4) rfl trivial rfl rfl rfl
    (Lts.allSteps_of_check (by decide +kernel))
  exact ⟨h.1, (h.2 8 fun why => by cases why <;> decide).trans (crowd_streams (by decide))⟩

/-- 501 of 502 tunnels lose their TCP side before an acknowledgement arrives. The 1001st frame closes the connection,
and the byte the last tunnel had for its socket is gone. -/
theorem crowd_of_failures_overflows :
    ∃ c, Lts.run step (crowd 65536 502) (((List.range 500).flatMap fun i => closing (4 * i)) ++
      (.abandon 2000 .sendError :: List.replicate 3 (.exec 0))) = some c ∧
    c.connected = false ∧ (crowd 65536 502).streams 2004 = some (idleEnd 65536) ∧
    c.streams 2004 = some (closeEnd (idleEnd 65536)) := by
  obtain ⟨c, hr, h, hold⟩ := run_closings (w := 65536) (n := 502) 500 (by decide) (by decide)
  obtain ⟨c₁, hr1, h1⟩ := run_toReset h
  obtain ⟨c₂, hs2, hdown, hstreams⟩ := h1.overflows (f := .stopSending 2000 .streamCancelled)
    (fun c h => by simp only [frameOf, h.stream]; rfl)
  have hlast : (crowd 65536 502).streams 2004 = some (idleEnd 65536) := crowd_streams (by decide)
  refine ⟨c₂, ?_, hdown, hlast, ?_⟩
  · refine Lts.run_append.2 ⟨c, hr, ?_⟩
    rw [replicate_succ', ← cons_append]
    exact Lts.run_append.2 ⟨c₁, hr1, by simp [Lts.run, hs2]⟩
  · rw [hstreams, h1.others 2004 (by decide), hold 2004 (by decide), hlast]
    rfl

end SharedConnection

end Quictun
