import Quictun.Stack
import Quictun.Tunnel

/-!
# What the call stack of a tunnel looks like

Some blocks only ever run right after they were pushed, so that what their caller
checked still holds when they run: `pre` is what holds then. The others (`deferred`)
may wait below a call that closes the tunnel, and nothing is promised to them.
-/

namespace Quictun

open Stack

namespace Op

def deferred : Op → Bool
  | .connectComplete .cancelled | .receiveComplete .cancelled | .sendComplete .cancelled
  | .beginReadFromTcp | .maybeFlushQuicToTcp | .maybeFinalizeClose | .fillAfterRead _ _
  | .receiveAfterWrite | .receiveEnd | .flushEnd
  | .closeAfterStopReading _ | .closeAfterDisconnect _ | .onClosedReturned _ => true
  | _ => false

def running : Op → Bool
  | .fillQueueFromStream | .beginReadFromTcp | .maybeFlushQuicToTcp | .maybeCloseAfterQuicFin
  | .fillAfterRead _ _ | .receiveAfterWrite | .receiveEnd | .flushEnd
  | .read | .writeToStream _ _ | .receiveAsync | .sendAsync _ => true
  | _ => false

def closing : Op → Bool
  | .stopReading | .closeAfterStopReading _ | .disconnect | .closeAfterDisconnect _
  | .onClosed _ | .onClosedReturned _ | .closeAfterOnClosed _ | .reset
  | .connectComplete .cancelled | .receiveComplete .cancelled | .sendComplete .cancelled => true
  | _ => false

def entry : Op → Bool
  | .start _ | .onStreamDataAvailable | .onStreamCanWriteMore | .onStreamGone
  | .connectComplete .ok | .connectComplete .failed | .receiveComplete (.slice _) | .receiveComplete .failed
  | .sendComplete .ok | .sendComplete .failed | .onFlushCloseAlarm | .close _ _ => true
  | _ => false

end Op

open Op

namespace World

def pre (w : World) : Op → Prop
  | .start _ => w.tunnel.closed = false ∧ w.tunnel.started = false ∧
      w.socket.status = .connected ∧ w.tunnel.hasSocket = true
  | .connectComplete .ok => w.tunnel.closed = false →
      w.tunnel.started = false ∧ w.socket.status = .connected ∧ w.tunnel.hasSocket = true
  | .receiveComplete .cancelled | .sendComplete .cancelled => True
  | .receiveComplete _ => w.socket.receiving = false ∧ (w.tunnel.closed = false → w.tunnel.started = true)
  | .sendComplete _ => w.socket.sending = false ∧ (w.tunnel.closed = false → w.tunnel.started = true)
  | .close _ _ => w.tunnel.closed = false
  | .writeToStream _ _ => w.tunnel.closed = false
  | .receiveAsync => w.tunnel.closed = false ∧ w.tunnel.tcpReceiveInFlight = true ∧
      w.tunnel.tcpReceiveDone = false ∧ w.socket.receiving = false
  | .sendAsync _ => w.tunnel.closed = false ∧ w.tunnel.tcpSendInFlight = true ∧ w.socket.sending = false
  | .disconnect => w.tunnel.socketDisconnected = true ∧ w.log.count .disconnect = 0
  | .onClosed _ => w.tunnel.onClosed = false ∧ w.log.count .onClosed = 0
  | _ => True

structure Core (w : World) : Prop where
  running : has Op.running w.todo = true → w.tunnel.started = true
  closing : has Op.closing w.todo = true → w.tunnel.closed = true
  socket : w.tunnel.started = true → w.tunnel.closed = false →
    w.socket.status = .connected ∧ w.tunnel.hasSocket = true
  receiving : w.tunnel.closed = false → w.socket.receiving = true → w.tunnel.tcpReceiveInFlight = true
  sending : w.tunnel.closed = false → w.socket.sending = true → w.tunnel.tcpSendInFlight = true
  connecting : w.socket.status = .connecting → w.tunnel.hasSocket = true ∧ w.tunnel.started = false
  receivingStarted : w.tunnel.tcpReceiveInFlight = true → w.tunnel.started = true
  sendingStarted : w.tunnel.tcpSendInFlight = true → w.tunnel.started = true
  notDisconnected : w.tunnel.socketDisconnected = false → w.log.count .disconnect = 0
  disconnects : w.log.count .disconnect ≤ 1
  notNotified : w.tunnel.onClosed = true → w.log.count .onClosed = 0
  notified : w.log.count .onClosed ≤ 1

/-- `Core`, and a stack on which only the top block is in a hurry. -/
structure Inv (w : World) : Prop extends Core w where
  below : ∀ op ∈ w.todo.tail, op.deferred = true
  top : ∀ op, w.todo.head? = some op → w.pre op

theorem pre_of_deferred {w : World} {op : Op} (h : op.deferred = true) : w.pre op := by
  unfold deferred at h
  split at h <;> trivial

section
variable {w : World} {ops : List Op}

theorem Core.pop {op : Op} {rest : List Op} (h : Core w) (ht : w.todo = op :: rest) : Core (w.pop rest) :=
  { h with
    running := fun hr => h.running (by rw [ht, has_cons, hr, Bool.or_true])
    closing := fun hc => h.closing (by rw [ht, has_cons, hc, Bool.or_true]) }

theorem Core.record (h : Core w) {c : Call} (hd : c ≠ .disconnect) (hn : c ≠ .onClosed) :
    Core (w.record c) := by
  have hd' : (w.record c).log.count .disconnect = w.log.count .disconnect := by
    simp [World.record, hd]
  have hn' : (w.record c).log.count .onClosed = w.log.count .onClosed := by
    simp [World.record, hn]
  exact { h with
    notDisconnected := fun hs => hd'.trans (h.notDisconnected hs)
    disconnects := hd' ▸ h.disconnects
    notNotified := fun hs => hn'.trans (h.notNotified hs)
    notified := hn' ▸ h.notified }

theorem Core.noteActivity (h : Core w) : Core w.noteActivity := { h with }

theorem Core.updateIdleClass (h : Core w) : Core w.updateIdleClass := { h with }

theorem Core.stay (h : Core w) (hd : ∀ op ∈ w.todo, op.deferred = true) : Inv w where
  toCore := h
  below op ho := hd op (List.mem_of_mem_tail ho)
  top op ho := pre_of_deferred (hd op (List.mem_of_head? ho))

theorem Core.push {o : Op} {ops : List Op} (h : Core w) (hd : ∀ op ∈ w.todo, op.deferred = true)
    (hops : ops.all Op.deferred = true) (hp : w.pre o) (hr : has Op.running (o :: ops) = true → w.tunnel.started = true)
    (hc : has Op.closing (o :: ops) = true → w.tunnel.closed = true) : Inv (w.push (o :: ops)) where
  toCore := { h with
    running := fun hs => by
      rw [World.push, has_append, Bool.or_eq_true] at hs
      exact hs.elim hr h.running
    closing := fun hs => by
      rw [World.push, has_append, Bool.or_eq_true] at hs
      exact hs.elim hc h.closing }
  below op ho := (List.mem_append.1 ho).elim (List.all_eq_true.1 hops op) (hd op)
  top op ho := by
    obtain rfl : o = op := by simpa [World.push] using ho
    exact hp

theorem Core.pushDeferred {ops : List Op} (h : Core w) (hd : ∀ op ∈ w.todo, op.deferred = true)
    (hops : ops.all Op.deferred = true) (hr : has Op.running ops = true → w.tunnel.started = true)
    (hc : has Op.closing ops = true → w.tunnel.closed = true) : Inv (w.push ops) := by
  cases ops with
  | nil => exact h.stay hd
  | cons o ops =>
    rw [List.all_cons, Bool.and_eq_true] at hops
    exact h.push hd hops.2 (pre_of_deferred hops.1) hr hc

end

/-! ## The tunnel's functions -/

section
variable {w : World} (h : Core w)
include h

theorem Core.armAlarm (d : Time) : Core (w.armAlarm d) := by
  unfold World.armAlarm
  split
  · split
    · exact { h with }
    · exact h
  · exact { h with }

theorem Core.enqueue (data : Bytes) : Core (w.enqueue data) := by
  unfold World.enqueue
  split
  · exact h
  · exact { h with }

theorem Core.receiveArrived (hr : w.tunnel.closed = false → w.socket.receiving = false) (data : Received) :
    Core (w.receiveArrived data) :=
  Core.record (w := { w with tunnel := { w.tunnel with tcpReceiveInFlight := false } })
    { h with
      receiving := fun hc hr' => by cases (hr hc).symm.trans hr'
      receivingStarted := nofun } (by simp) (by simp)

theorem Core.sendArrived (hr : w.tunnel.closed = false → w.socket.sending = false) : Core w.sendArrived :=
  { h with
    sending := fun hc hr' => by cases (hr hc).symm.trans hr'
    sendingStarted := nofun }

theorem Core.disconnected : Core w.disconnected := { h with notDisconnected := nofun }

variable (hd : ∀ op ∈ w.todo, op.deferred = true)
include hd

theorem inv_start {seed : Bytes} (hp : w.pre (.start seed)) : Inv (w.start seed) := by
  have h' : Core (w.launch seed) := by
    refine Core.record (w := { w with tunnel := { w.tunnel with started := true, pendingToTcp := _ } }) ?_
      (by simp) (by simp)
    exact { h with
      running := fun _ => rfl
      socket := fun _ _ => hp.2.2
      connecting := fun hs => by cases hp.2.2.1.symm.trans hs
      receivingStarted := fun _ => rfl
      sendingStarted := fun _ => rfl }
  exact h'.noteActivity.push hd rfl trivial (fun _ => rfl) nofun

theorem inv_onStreamDataAvailable : Inv w.onStreamDataAvailable := by
  unfold onStreamDataAvailable
  split
  · exact h.stay hd
  next hg =>
    simp only [Bool.or_eq_true, Bool.not_eq_true', not_or, Bool.not_eq_false] at hg
    exact h.push hd rfl trivial (fun _ => hg.2) nofun

theorem inv_onStreamCanWriteMore : Inv w.onStreamCanWriteMore := by
  unfold onStreamCanWriteMore
  split
  · exact h.stay hd
  next hg =>
    simp only [Bool.or_eq_true, Bool.not_eq_true', not_or, Bool.not_eq_false] at hg
    split
    · exact h.push hd rfl trivial (fun _ => hg.2) nofun
    split
    · exact h.updateIdleClass.stay hd
    · exact h.updateIdleClass.push hd rfl trivial (fun _ => hg.2) nofun

theorem inv_onStreamGone : Inv w.onStreamGone := by
  unfold onStreamGone
  split
  · exact h.stay hd
  next hc =>
    rw [Bool.not_eq_true] at hc
    exact h.push hd rfl hc nofun nofun

theorem inv_connectComplete {status : Status} (hp : w.pre (.connectComplete status)) :
    Inv (w.connectComplete status) := by
  unfold connectComplete
  split
  · exact h.stay hd
  next hc =>
    rw [Bool.not_eq_true] at hc
    split
    next hok =>
      subst hok
      exact h.push hd rfl ⟨hc, hp hc⟩ nofun nofun
    · exact h.disconnected.push hd rfl hc nofun nofun

theorem inv_finishSending (hs : w.tunnel.started = true) (hc : w.tunnel.closed = false) : Inv w.finishSending :=
  Core.push (w := w.sendDone) { h with } hd rfl hc (fun _ => hs) nofun

theorem inv_receiveComplete {data : Received} (hp : w.pre (.receiveComplete data))
    (hcan : data = .cancelled → w.tunnel.closed = true) : Inv (w.receiveComplete data) := by
  have hr : w.tunnel.closed = false → w.socket.receiving = false := by
    intro hc
    cases data with
    | cancelled => cases (hcan rfl).symm.trans hc
    | slice | failed => exact hp.1
  have h' := h.receiveArrived hr data
  unfold receiveComplete
  split
  · exact h'.stay hd
  next hc =>
    rw [Bool.not_eq_true] at hc
    cases data with
    | cancelled => cases (hcan rfl).symm.trans hc
    | failed => exact h'.push hd rfl hc nofun nofun
    | slice bs =>
      cases bs with
      | nil => exact inv_finishSending h' hd (hp.2 hc) hc
      | cons b bs => exact h'.noteActivity.push hd rfl hc (fun _ => hp.2 hc) nofun

theorem inv_receiveAfterWrite (hs : w.tunnel.started = true) : Inv w.receiveAfterWrite := by
  unfold receiveAfterWrite
  split <;> exact h.push hd rfl trivial (fun _ => hs) nofun

theorem inv_sendComplete {status : Status} (hp : w.pre (.sendComplete status))
    (hcan : status = .cancelled → w.tunnel.closed = true) : Inv (w.sendComplete status) := by
  have hr : w.tunnel.closed = false → w.socket.sending = false ∧ w.tunnel.started = true := by
    intro hc
    cases status with
    | cancelled => cases (hcan rfl).symm.trans hc
    | ok | failed => exact ⟨hp.1, hp.2 hc⟩
  have h' := h.sendArrived fun hc => (hr hc).1
  unfold sendComplete
  split
  · exact h'.stay hd
  next hc =>
    rw [Bool.not_eq_true] at hc
    split
    · exact h'.push hd rfl trivial (fun _ => (hr hc).2) nofun
    · exact h'.push hd rfl hc nofun nofun

section
variable (hs : w.tunnel.started = true)
include hs

theorem inv_fillQueueFromStream : Inv w.fillQueueFromStream := by
  unfold fillQueueFromStream
  split
  · exact h.push hd rfl trivial (fun _ => hs) nofun
  · exact h.updateIdleClass.stay hd

theorem inv_fillAfterRead (data : Bytes) (fin : Bool) : Inv (w.fillAfterRead data fin) := by
  have he : (w.enqueue data).todo = w.todo ∧ (w.enqueue data).tunnel.started = w.tunnel.started := by
    unfold enqueue; split <;> exact ⟨rfl, rfl⟩
  have h' := h.enqueue data
  unfold fillAfterRead
  split
  · exact Core.stay (Core.updateIdleClass (w := (w.enqueue data).quicFinished) { h' with }) (he.1 ▸ hd)
  split
  · exact h.updateIdleClass.stay hd
  · exact h'.push (he.1 ▸ hd) rfl trivial (fun _ => he.2.trans hs) nofun

theorem inv_beginReadFromTcp : Inv w.beginReadFromTcp := by
  unfold beginReadFromTcp
  split
  · exact h.stay hd
  next hg =>
    simp only [Bool.or_eq_true, Bool.not_eq_true', not_or, Bool.not_eq_false, Bool.not_eq_true] at hg
    obtain ⟨⟨⟨hc, hf⟩, hdone⟩, _⟩ := hg
    have hr : w.socket.receiving = false := by
      by_contra hr
      rw [h.receiving hc (by simpa using hr)] at hf
      cases hf
    refine Core.push (w := w.receiveBegun) ?_ hd rfl ⟨hc, rfl, hdone, hr⟩ (fun _ => hs) nofun
    exact { h with receiving := fun _ _ => rfl, receivingStarted := fun _ => hs }

theorem inv_maybeFlushQuicToTcp : Inv w.maybeFlushQuicToTcp := by
  unfold maybeFlushQuicToTcp
  split
  · exact h.stay hd
  next hg =>
    simp only [Bool.or_eq_true, Bool.not_eq_true', not_or, Bool.not_eq_false, Bool.not_eq_true] at hg
    obtain ⟨⟨hc, hf⟩, _⟩ := hg
    have hr : w.socket.sending = false := by
      by_contra hr
      rw [h.sending hc (by simpa using hr)] at hf
      cases hf
    split
    · exact h.push hd rfl trivial (fun _ => hs) nofun
    next chunk rest _ =>
      refine Core.push (w := w.dequeued rest) ?_ hd rfl ⟨hc, rfl, hr⟩ (fun _ => hs) nofun
      exact { h with sending := fun _ _ => rfl, sendingStarted := fun _ => hs }

theorem inv_maybeCloseAfterQuicFin : Inv w.maybeCloseAfterQuicFin := by
  unfold maybeCloseAfterQuicFin
  split
  · exact h.stay hd
  next hg =>
    simp only [Bool.or_eq_true, Bool.not_eq_true', not_or, Bool.not_eq_false, Bool.not_eq_true] at hg
    split
    · exact h.push hd rfl trivial nofun nofun
    · exact inv_finishSending h hd hs hg.1

end

theorem inv_maybeFinalizeClose : Inv w.maybeFinalizeClose := by
  unfold maybeFinalizeClose
  split
  · exact h.stay hd
  next hg =>
    simp only [Bool.or_eq_true, Bool.not_eq_true', not_or, Bool.not_eq_false, Bool.not_eq_true] at hg
    have h' : Core w.cancelAlarm := { h with }
    split
    · exact h'.push hd rfl hg.1 nofun nofun
    split
    · exact h'.push hd rfl hg.1 nofun nofun
    · refine (h.armAlarm _).stay ?_
      unfold armAlarm
      split
      · split <;> exact hd
      · exact hd

theorem inv_close (reason : CloseReason) (b : Bool) : Inv (w.close reason b) := by
  have h' : Core (w.shut reason) :=
    Core.record (w := { w.cancelAlarm with tunnel := { w.cancelAlarm.tunnel with closed := true }, tracker := _ })
      { h with
        closing := fun _ => rfl
        socket := nofun
        receiving := nofun
        sending := nofun } (by simp) (by simp)
  unfold close
  split <;> exact h'.push hd rfl trivial nofun (fun _ => rfl)

section
variable (hc : w.tunnel.closed = true) (b : Bool)
include hc b

theorem inv_closeAfterStopReading : Inv (w.closeAfterStopReading b) := by
  unfold closeAfterStopReading
  split
  next hg =>
    simp only [Bool.and_eq_true, Bool.not_eq_true'] at hg
    exact h.disconnected.push hd rfl ⟨rfl, h.notDisconnected hg.2⟩ nofun (fun _ => hc)
  · exact h.push hd rfl trivial nofun (fun _ => hc)

theorem inv_closeAfterDisconnect : Inv (w.closeAfterDisconnect b) := by
  unfold closeAfterDisconnect
  split
  next hg =>
    refine Core.push (w := w.onClosedTaken) ?_ hd rfl ⟨rfl, h.notNotified hg⟩ nofun (fun _ => hc)
    exact { h with notNotified := nofun }
  · exact h.push hd rfl trivial nofun (fun _ => hc)

theorem inv_onClosedReturned : Inv (w.onClosedReturned b) :=
  (h.record (by simp) (by simp)).push hd rfl trivial nofun (fun _ => hc)

theorem inv_closeAfterOnClosed : Inv (w.closeAfterOnClosed b) := by
  unfold closeAfterOnClosed
  split
  · exact h.push hd rfl trivial nofun (fun _ => hc)
  · exact h.stay hd

end

/-! ## Calls out of the tunnel -/

theorem inv_afterCall {ops : List Op} (a : Answer) (r : QuictunStream × Bool) (hops : ops.all Op.deferred = true)
    (hr : has Op.running ops = true → w.tunnel.started = true)
    (hc : has Op.closing ops = true → w.tunnel.closed = true) : Inv (w.afterCall a r ops) := by
  unfold afterCall
  simp only
  generalize (if a.connectionFails && w.connected then r.1.onConnectionClosed else (r.1, false)) = q
  split
  · exact Core.push { h with } hd hops trivial (by simpa [running] using hr) (by simpa [closing] using hc)
  · exact Core.pushDeferred { h with } hd hops hr hc

theorem inv_receiveAsync (a : Answer) (hp : w.pre .receiveAsync) : Inv (w.receiveAsync a) := by
  obtain ⟨hc, hf, _, hr⟩ := hp
  unfold receiveAsync
  split
  next data _ =>
    refine (h.record (by simp) (by simp)).push hd rfl ?_ nofun ?_
    · cases data <;> exact ⟨hr, fun _ => h.receivingStarted hf⟩
    · cases data <;> simp [Received.ofOption, closing]
  · refine Core.stay (Core.record ?_ (by simp) (by simp)) hd
    exact { h with receiving := fun _ _ => hf }

theorem inv_sendAsync (a : Answer) {chunk : Bytes} (hp : w.pre (.sendAsync chunk)) : Inv (w.sendAsync a chunk) := by
  obtain ⟨hc, hf, hr⟩ := hp
  unfold sendAsync
  split
  next ok _ =>
    refine (h.record (by simp) (by simp)).push hd rfl ?_ nofun ?_
    · cases ok <;> exact ⟨hr, fun _ => h.sendingStarted hf⟩
    · cases ok <;> simp [Status.ofBool, closing]
  · refine Core.stay (Core.record ?_ (by simp) (by simp)) hd
    exact { h with sending := fun _ _ => hf }

theorem inv_disconnect (hc : w.tunnel.closed = true) (hp : w.pre .disconnect) : Inv w.disconnect := by
  obtain ⟨hs, h0⟩ := hp
  have h' : Core ({ w with socket := {} }.record .disconnect) :=
    { h with
      socket := fun _ hc' => by cases hc.symm.trans hc'
      connecting := nofun
      receiving := nofun
      sending := nofun
      notDisconnected := fun hs' => by cases hs.symm.trans hs'
      disconnects := by simp [record, h0]
      notNotified := fun hn => by simpa [record] using h.notNotified hn
      notified := by simpa [record] using h.notified }
  refine h'.pushDeferred hd ?_ ?_ (fun _ => hc)
  · unfold cancelled
    split <;> split <;> split <;> rfl
  · unfold cancelled
    split <;> split <;> split <;> simp [running]

theorem inv_onClosed (a : Answer) {b : Bool} (hc : w.tunnel.closed = true) (hp : w.pre (.onClosed b)) :
    Inv (w.onClosed a b) := by
  obtain ⟨hs, h0⟩ := hp
  have h' : Core (w.record .onClosed) :=
    { h with
      notDisconnected := fun hn => by simpa [record] using h.notDisconnected hn
      disconnects := by simpa [record] using h.disconnects
      notNotified := fun hs' => by cases hs.symm.trans hs'
      notified := by simp [record, h0] }
  exact inv_afterCall h' hd a _ rfl nofun (fun _ => hc)

end

/-! ## Whole steps -/

theorem exec_inv {w : World} {op : Op} {rest : List Op} (h : Inv w) (ht : w.todo = op :: rest) (a : Answer) :
    Inv ((w.pop rest).exec a op) := by
  have h' : Core (w.pop rest) := h.toCore.pop ht
  have hd : ∀ o ∈ rest, o.deferred = true := fun o ho => h.below o (by rw [ht]; exact ho)
  have hp : pre (w.pop rest) op := h.top op (by rw [ht]; rfl)
  have hr : op.running = true → w.tunnel.started = true := fun hr => h.running (by rw [ht, has_cons, hr]; rfl)
  have hc : op.closing = true → w.tunnel.closed = true := fun hc => h.closing (by rw [ht, has_cons, hc]; rfl)
  cases op with
  | start seed => exact inv_start h' hd hp
  | onStreamDataAvailable => exact inv_onStreamDataAvailable h' hd
  | onStreamCanWriteMore => exact inv_onStreamCanWriteMore h' hd
  | onStreamGone => exact inv_onStreamGone h' hd
  | connectComplete status => exact inv_connectComplete h' hd hp
  | receiveComplete data => exact inv_receiveComplete h' hd hp fun he => hc (by rw [he]; rfl)
  | sendComplete status => exact inv_sendComplete h' hd hp fun he => hc (by rw [he]; rfl)
  | onFlushCloseAlarm | maybeFinalizeClose => exact inv_maybeFinalizeClose h' hd
  | fillQueueFromStream => exact inv_fillQueueFromStream h' hd (hr rfl)
  | beginReadFromTcp => exact inv_beginReadFromTcp h' hd (hr rfl)
  | maybeFlushQuicToTcp => exact inv_maybeFlushQuicToTcp h' hd (hr rfl)
  | maybeCloseAfterQuicFin => exact inv_maybeCloseAfterQuicFin h' hd (hr rfl)
  | close reason b => exact inv_close h' hd reason b
  | fillAfterRead data fin => exact inv_fillAfterRead h' hd (hr rfl) data fin
  | receiveAfterWrite => exact inv_receiveAfterWrite h' hd (hr rfl)
  | receiveEnd | flushEnd => exact h'.updateIdleClass.stay hd
  | closeAfterStopReading b => exact inv_closeAfterStopReading h' hd (hc rfl) b
  | closeAfterDisconnect b => exact inv_closeAfterDisconnect h' hd (hc rfl) b
  | onClosedReturned b => exact inv_onClosedReturned h' hd (hc rfl) b
  | closeAfterOnClosed b => exact inv_closeAfterOnClosed h' hd (hc rfl) b
  | read =>
    exact inv_afterCall (h'.record (by simp) (by simp)) hd a _ rfl (fun _ => hr rfl) nofun
  | writeToStream data fin =>
    exact inv_afterCall (h'.record (by simp) (by simp)) hd a _ rfl (by simp) (by simp)
  | stopReading => exact inv_afterCall h' hd a _ rfl (by simp) (by simp)
  | receiveAsync => exact inv_receiveAsync h' hd a hp
  | sendAsync chunk => exact inv_sendAsync h' hd a hp
  | disconnect => exact inv_disconnect h' hd (hc rfl) hp
  | onClosed b => exact inv_onClosed h' hd a (hc rfl) hp
  | reset => exact inv_afterCall (h'.record (by simp) (by simp)) hd a _ rfl (by simp) (by simp)

/-- What the event loop does, and when. -/
inductive Delivery (w : World) : Ev → World → Prop
  | streamFrame (bs : Bytes) (fin : Bool) :
    Delivery w (.streamFrame bs fin) (w.notified (w.stream.onStreamFrame bs fin))
  | streamReset (error : Bool) : Delivery w (.streamReset error) (w.notified (goneIf (w.stream.onStreamReset error)))
  | stopSending (error : Bool) : Delivery w (.stopSending error) (w.notified (goneIf (w.stream.onStopSending error)))
  | canWrite (k : Nat) (f : Bool) : Delivery w (.canWrite k f) (w.notified (w.stream.onCanWrite k f))
  | ack (k : Nat) (f : Bool) : Delivery w (.ack k f) (w.notified (w.stream.onAck k f, none))
  | connectionClosed :
      Delivery w .connectionClosed { w.notified (goneIf w.stream.onConnectionClosed) with connected := false }
  | dials (hs : w.tunnel.hasSocket = false) (hc : w.tunnel.closed = false) : Delivery w (.dial none)
      { w with tunnel := { w.tunnel with hasSocket := true }, socket := { w.socket with status := .connecting } }
  | dialled (hs : w.tunnel.hasSocket = false) (hc : w.tunnel.closed = false) (ok : Bool) :
      Delivery w (.dial (some ok)) ({ w with tunnel := { w.tunnel with hasSocket := true } }.connectEnds ok)
  | start (seed : Bytes) (hs : w.tunnel.hasSocket = true) (hk : w.socket.status = .connected)
      (hn : w.tunnel.started = false) (hc : w.tunnel.closed = false) :
        Delivery w (.start seed) { w with todo := [.start seed] }
  | connectDone (hk : w.socket.status = .connecting) (ok : Bool) : Delivery w (.connectDone ok) (w.connectEnds ok)
  | receiveDone (hr : w.socket.receiving = true) (data : Option Bytes) : Delivery w (.receiveDone data)
      { w with socket := { w.socket with receiving := false }, todo := [.receiveComplete (.ofOption data)] }
  | sendDone (hr : w.socket.sending = true) (ok : Bool) : Delivery w (.sendDone ok)
      { w with socket := { w.socket with sending := false }, todo := [.sendComplete (.ofBool ok)] }
  | alarm : Delivery w .alarm
      { w with tunnel := { w.tunnel with flushCloseAlarm := some none }, todo := [.onFlushCloseAlarm] }
  | ownerClose (hc : w.tunnel.closed = false) (b : Bool) :
    Delivery w (.ownerClose b) { w with todo := [.close .byOwner b] }

theorem deliver_cases {w w' : World} {e : Ev} (hw : w.deliver e = some w') : Delivery w e w' := by
  cases e with
  | dial result =>
    obtain ⟨hg, hw⟩ := Option.ite_none_left_eq_some.1 hw
    rw [Bool.not_eq_true, Bool.or_eq_false_iff] at hg
    cases result <;> cases hw
    · exact .dials hg.1 hg.2
    · exact .dialled hg.1 hg.2 _
  | start seed =>
    obtain ⟨hg, ⟨⟩⟩ := Option.ite_none_right_eq_some.1 hw
    simp only [Bool.and_eq_true, Bool.not_eq_true', beq_iff_eq] at hg
    exact .start seed hg.1.1.1 hg.1.1.2 hg.1.2 hg.2
  | connectDone x | receiveDone x | sendDone x =>
    obtain ⟨h, ⟨⟩⟩ := Option.ite_none_right_eq_some.1 hw
    constructor
    exact h
  | alarm =>
    simp only [deliver] at hw
    (repeat' split at hw) <;> cases hw
    exact .alarm
  | ownerClose b =>
    obtain ⟨hc, ⟨⟩⟩ := Option.ite_none_left_eq_some.1 hw
    exact .ownerClose (Bool.eq_false_iff.2 hc) b
  | _ => cases hw <;> constructor

section
variable {w : World} (h : Core w)
include h

theorem Core.call {o : Op} (hp : w.pre o) (hr : o.running = false) (hc : o.closing = false) :
    Inv { w with todo := [o] } where
  toCore := { h with
    running := fun h' => by simp [hr] at h'
    closing := fun h' => by simp [hc] at h' }
  below op ho := by cases ho
  top op ho := by
    obtain rfl : o = op := by simpa using ho
    exact hp

theorem Core.idle : Inv { w with todo := [] } where
  toCore := { h with
    running := fun h' => by cases h'
    closing := fun h' => by cases h' }
  below op ho := by cases ho
  top o ho := by cases ho

theorem inv_notified (r : QuictunStream × Option QuictunStream.Notice) : Inv (w.notified r) := by
  have h' : Core { w with stream := r.1 } := { h with }
  unfold notified
  split
  · exact h'.idle
  · exact h'.call trivial rfl rfl
  · exact h'.call trivial rfl rfl
  · exact h'.call trivial rfl rfl

theorem inv_connectEnds (hs : w.tunnel.started = false) (hso : w.tunnel.hasSocket = true) (ok : Bool) :
    Inv (w.connectEnds ok) := by
  have h' : Core { w with socket := { w.socket with status := if ok then .connected else .notConnected } } :=
    { h with
      socket := fun hs' => by cases hs.symm.trans hs'
      connecting := fun _ => ⟨hso, hs⟩ }
  cases ok with
  | true => exact h'.call (o := .connectComplete .ok) (fun _ => ⟨hs, rfl, hso⟩) rfl rfl
  | false => exact h'.call (o := .connectComplete .failed) trivial rfl rfl

theorem deliver_inv {e : Ev} {w' : World} (hw : w.deliver e = some w') (ht : w.todo = []) : Inv w' := by
  have hno : w.tunnel.hasSocket = false → w.tunnel.closed = false → w.tunnel.started = false := by
    intro hs hc
    by_contra hst
    cases hs.symm.trans (h.socket (by simpa using hst) hc).2
  cases deliver_cases hw with
  | connectionClosed =>
    have h' := inv_notified h (goneIf w.stream.onConnectionClosed)
    exact { h' with }
  | dials hs hc =>
    have hst := hno hs hc
    have h' : Core
      { w with tunnel := { w.tunnel with hasSocket := true }, socket := { w.socket with status := .connecting } } :=
      { h with
        socket := fun hs' => by cases hst.symm.trans hs'
        connecting := fun _ => ⟨rfl, hst⟩ }
    exact h'.stay (by simp [ht])
  | dialled hs hc ok =>
    have hst := hno hs hc
    have h' : Core { w with tunnel := { w.tunnel with hasSocket := true } } :=
      { h with
        socket := fun hs' => by cases hst.symm.trans hs'
        connecting := fun _ => ⟨rfl, hst⟩ }
    exact inv_connectEnds h' hst rfl ok
  | start seed hs hk hn hc => exact h.call (o := .start seed) ⟨hc, hn, hk, hs⟩ rfl rfl
  | connectDone hk ok => exact inv_connectEnds h (h.connecting hk).2 (h.connecting hk).1 ok
  | receiveDone hr data =>
    have h' : Core { w with socket := { w.socket with receiving := false } } :=
      { h with receiving := nofun }
    have hs : w.tunnel.closed = false → w.tunnel.started = true := fun hc => h.receivingStarted (h.receiving hc hr)
    cases data <;> exact h'.call ⟨rfl, hs⟩ rfl rfl
  | sendDone hr ok =>
    have h' : Core { w with socket := { w.socket with sending := false } } :=
      { h with sending := nofun }
    have hs : w.tunnel.closed = false → w.tunnel.started = true := fun hc => h.sendingStarted (h.sending hc hr)
    cases ok <;> exact h'.call ⟨rfl, hs⟩ rfl rfl
  | alarm =>
    have h' : Core { w with tunnel := { w.tunnel with flushCloseAlarm := some none } } := { h with }
    exact h'.call trivial rfl rfl
  | ownerClose hc b => exact h.call (o := .close .byOwner b) hc rfl rfl
  | _ => exact inv_notified h _

end

/-- What the event loop leaves alone: it calls one function at most, and the status of the socket
changes only when a connect attempt begins or ends. -/
def Delivered (w w' : World) : Prop :=
  ∃ x y s k c ops, w' = { w with
      tunnel := { w.tunnel with hasSocket := x, flushCloseAlarm := y }
      stream := s, socket := k, connected := c, todo := ops } ∧
    (ops = [] ∨ ∃ op, ops = [op] ∧ op.entry = true) ∧
    (k.status = w.socket.status ∧ x = w.tunnel.hasSocket ∨ k.status ≠ .notConnected ∨ ops = [.connectComplete .failed])

theorem delivered_notified (w : World) (r : QuictunStream × Option QuictunStream.Notice) :
    Delivered w (w.notified r) := by
  refine ⟨_, _, _, _, _, _, rfl, ?_, .inl ⟨rfl, rfl⟩⟩
  rcases r with ⟨s, _ | _ | _ | _⟩ <;> simp [entry]

theorem deliver_eq {w w' : World} {e : Ev} (ht : w.todo = []) (hw : w.deliver e = some w') : Delivered w w' := by
  have hcall : ∀ {y k op}, op.entry = true → k.status = w.socket.status → Delivered w { w with
      tunnel := { w.tunnel with flushCloseAlarm := y }, socket := k, todo := [op] } :=
    fun he hk => ⟨_, _, _, _, _, _, rfl, .inr ⟨_, rfl, he⟩, .inl ⟨hk, rfl⟩⟩
  have hends : ∀ x ok, Delivered w ({ w with tunnel := { w.tunnel with hasSocket := x } }.connectEnds ok) := by
    intro x ok
    refine ⟨_, _, _, _, _, _, rfl, .inr ⟨_, rfl, ?_⟩, .inr ?_⟩
    · cases ok <;> rfl
    · cases ok
      · exact .inr rfl
      · exact .inl nofun
  cases deliver_cases hw with
  | connectionClosed =>
    obtain ⟨x, y, s, k, c, ops, he, h⟩ := delivered_notified w (goneIf w.stream.onConnectionClosed)
    rw [he]
    exact ⟨x, y, s, k, _, ops, rfl, h⟩
  | dials =>
    exact ⟨true, _, _, { w.socket with status := .connecting }, _, [], by rw [ht], .inl rfl, .inr (.inl nofun)⟩
  | dialled _ _ ok => exact hends true ok
  | connectDone _ ok => exact hends w.tunnel.hasSocket ok
  | start | alarm | ownerClose => exact hcall rfl rfl
  | receiveDone _ data | sendDone _ data => exact hcall (by cases data <;> rfl) rfl
  | _ => exact delivered_notified w _

theorem step_cases {w w' : World} {e : Ev} (hw : w.step e = some w') :
    (∃ a op rest, e = .exec a ∧ w.todo = op :: rest ∧ w' = (w.pop rest).exec a op) ∨
    (∃ d : Nat, w' = { w with now := w.now + d }) ∨
    (∃ k, sameFor w.me w.tracker k = true ∧ w' = { w with tracker := k }) ∨
    (w.todo = [] ∧ w.deliver e = some w') := by
  unfold step at hw
  split at hw
  · split at hw
    · cases hw
    next op rest ht =>
      cases hw
      exact .inl ⟨_, op, rest, rfl, ht, rfl⟩
  · cases hw; exact .inr (.inl ⟨_, rfl⟩)
  · split at hw
    · cases hw; exact .inr (.inr (.inl ⟨_, ‹_›, rfl⟩))
    · cases hw
  · split at hw
    · exact .inr (.inr (.inr ⟨‹_›, hw⟩))
    · cases hw

theorem step_inv {w w' : World} {e : Ev} (h : Inv w) (hw : w.step e = some w') : Inv w' := by
  rcases step_cases hw with ⟨a, op, rest, -, ht, rfl⟩ | ⟨d, rfl⟩ | ⟨k, -, rfl⟩ | ⟨ht, hw⟩
  · exact exec_inv h ht a
  · exact { h with }
  · exact { h with }
  · exact deliver_inv h.toCore hw ht

/-! ## The call graph -/

inductive Pushes : Op → List Op → Prop
  | nothing (op) : Pushes op []
  | start (seed) : Pushes (.start seed) [.fillQueueFromStream, .beginReadFromTcp, .maybeFlushQuicToTcp]
  | available : Pushes .onStreamDataAvailable [.fillQueueFromStream, .maybeFlushQuicToTcp]
  | canFinalize : Pushes .onStreamCanWriteMore [.maybeFinalizeClose]
  | canRead : Pushes .onStreamCanWriteMore [.beginReadFromTcp]
  | gone : Pushes .onStreamGone [.close .streamClosed false]
  | connected (seed) : Pushes (.connectComplete .ok) [.start seed]
  | connectFailed {st} (h : st ≠ .ok) : Pushes (.connectComplete st) [.close .targetConnectFailed true]
  | endOfFile : Pushes (.receiveComplete (.slice [])) [.writeToStream [] true, .maybeFinalizeClose]
  | slice (b bs) : Pushes (.receiveComplete (.slice (b :: bs))) [.writeToStream (b :: bs) false, .receiveAfterWrite]
  | receiveFailed {d} (h : ∀ bs, d ≠ .slice bs) : Pushes (.receiveComplete d) [.close .tcpReceiveError true]
  | wait : Pushes .receiveAfterWrite [.receiveEnd]
  | readOn : Pushes .receiveAfterWrite [.beginReadFromTcp, .receiveEnd]
  | sent : Pushes (.sendComplete .ok) [.fillQueueFromStream, .maybeFlushQuicToTcp]
  | sendFailed {st} (h : st ≠ .ok) : Pushes (.sendComplete st) [.close .tcpSendError true]
  | finalize (op r b) (h : op = .onFlushCloseAlarm ∨ op = .maybeFinalizeClose) : Pushes op [.close r b]
  | fill : Pushes .fillQueueFromStream [.read]
  | fillOn {d} (h : d.isEmpty = false) : Pushes (.fillAfterRead d false) [.fillQueueFromStream]
  | begin : Pushes .beginReadFromTcp [.receiveAsync]
  | flush (c) : Pushes .maybeFlushQuicToTcp [.sendAsync c, .flushEnd]
  | flushed : Pushes .maybeFlushQuicToTcp [.maybeCloseAfterQuicFin]
  | finish : Pushes .maybeCloseAfterQuicFin [.writeToStream [] true, .maybeFinalizeClose]
  | finished : Pushes .maybeCloseAfterQuicFin [.maybeFinalizeClose]
  | close (r b) : Pushes (.close r b) [.stopReading, .closeAfterStopReading b]
  | closeStopped (r b) : Pushes (.close r b) [.closeAfterStopReading b]
  | disconnect (b) : Pushes (.closeAfterStopReading b) [.disconnect, .closeAfterDisconnect b]
  | disconnected (b) : Pushes (.closeAfterStopReading b) [.closeAfterDisconnect b]
  | notify (b) : Pushes (.closeAfterDisconnect b) [.onClosed b]
  | unnotified (b) : Pushes (.closeAfterDisconnect b) [.closeAfterOnClosed b]
  | returned (b) : Pushes (.onClosedReturned b) [.closeAfterOnClosed b]
  | reset (b) : Pushes (.closeAfterOnClosed b) [.reset]
  | read (d f) : Pushes .read [.fillAfterRead d f]
  | readGone (d f) : Pushes .read [.onStreamGone, .fillAfterRead d f]
  | onClosed (b) : Pushes (.onClosed b) [.onClosedReturned b]
  | onClosedGone (b) : Pushes (.onClosed b) [.onStreamGone, .onClosedReturned b]
  | callGone {op} (h : (∃ d f, op = .writeToStream d f) ∨ op = .stopReading ∨ op = .reset) : Pushes op [.onStreamGone]
  | received (d) : Pushes .receiveAsync [.receiveComplete (.ofOption d)]
  | sentInline (c ok) : Pushes (.sendAsync c) [.sendComplete (.ofBool ok)]
  | cancelled (k) : Pushes .disconnect (cancelled k)

theorem afterCall_pushes (w : World) (a : Answer) (r : QuictunStream × Bool) {op : Op} {ops : List Op}
    (h : Pushes op ops) (hg : Pushes op (.onStreamGone :: ops)) :
    ∃ ops', Pushes op ops' ∧ (w.afterCall a r ops).todo = ops' ++ w.todo := by
  unfold afterCall
  simp only
  generalize (if a.connectionFails && w.connected then r.1.onConnectionClosed else (r.1, false)) = q
  split
  · exact ⟨_, hg, rfl⟩
  · exact ⟨_, h, rfl⟩

theorem exec_pushes (w : World) (a : Answer) (op : Op) : ∃ ops, Pushes op ops ∧ (w.exec a op).todo = ops ++ w.todo := by
  have h0 : ∃ ops, Pushes op ops ∧ w.todo = ops ++ w.todo := ⟨[], .nothing op, rfl⟩
  have hfin : op = .onFlushCloseAlarm ∨ op = .maybeFinalizeClose →
      ∃ ops, Pushes op ops ∧ w.maybeFinalizeClose.todo = ops ++ w.todo := by
    intro h
    unfold maybeFinalizeClose
    split
    · exact h0
    split
    · exact ⟨_, .finalize op _ _ h, rfl⟩
    split
    · exact ⟨_, .finalize op _ _ h, rfl⟩
    · unfold armAlarm
      split
      · split <;> exact h0
      · exact h0
  cases op with
  | start seed => exact ⟨_, .start seed, rfl⟩
  | onStreamDataAvailable | onStreamGone | beginReadFromTcp =>
    simp only [exec, onStreamDataAvailable, onStreamGone, beginReadFromTcp]
    split
    · exact h0
    · exact ⟨_, by constructor, rfl⟩
  | fillQueueFromStream | closeAfterOnClosed b | receiveAsync | sendAsync c =>
    simp only [exec, fillQueueFromStream, closeAfterOnClosed, receiveAsync, sendAsync]
    split
    · exact ⟨_, by constructor, rfl⟩
    · exact h0
  | close r b | receiveAfterWrite | closeAfterStopReading b | closeAfterDisconnect b =>
    simp only [exec, close, receiveAfterWrite, closeAfterStopReading, closeAfterDisconnect]
    split <;> exact ⟨_, by constructor, rfl⟩
  | maybeFlushQuicToTcp | maybeCloseAfterQuicFin =>
    simp only [exec, maybeFlushQuicToTcp, maybeCloseAfterQuicFin]
    split
    · exact h0
    split <;> exact ⟨_, by constructor, rfl⟩
  | onStreamCanWriteMore =>
    simp only [exec, onStreamCanWriteMore]
    split
    · exact h0
    split
    · exact ⟨_, .canFinalize, rfl⟩
    split
    · exact h0
    · exact ⟨_, .canRead, rfl⟩
  | connectComplete st | sendComplete st =>
    simp only [exec, connectComplete, sendComplete]
    split
    · exact h0
    split
    next h =>
      subst h
      exact ⟨_, by constructor, rfl⟩
    next h => exact ⟨_, by constructor; exact h, rfl⟩
  | receiveComplete d =>
    simp only [exec, receiveComplete]
    split
    · exact h0
    split
    · exact ⟨_, .endOfFile, rfl⟩
    · exact ⟨_, .slice _ _, rfl⟩
    next h1 h2 =>
      refine ⟨_, .receiveFailed fun bs h => ?_, rfl⟩
      cases bs with
      | nil => exact h1 h
      | cons b bs => exact h2 b bs h
  | onFlushCloseAlarm => exact hfin (.inl rfl)
  | maybeFinalizeClose => exact hfin (.inr rfl)
  | fillAfterRead d f =>
    have he : (w.enqueue d).todo = w.todo := by unfold enqueue; split <;> rfl
    simp only [exec, fillAfterRead]
    split
    · exact ⟨[], .nothing _, he⟩
    split
    · exact h0
    next hf hd =>
      rw [Bool.not_eq_true] at hf hd
      subst hf
      exact ⟨_, .fillOn hd, by rw [← he]; rfl⟩
  | receiveEnd | flushEnd => exact h0
  | onClosedReturned b => exact ⟨_, .returned b, rfl⟩
  | disconnect => exact ⟨_, .cancelled w.socket, rfl⟩
  | read => exact afterCall_pushes (w.record _) a _ (.read _ _) (.readGone _ _)
  | onClosed b => exact afterCall_pushes (w.record _) a _ (.onClosed b) (.onClosedGone b)
  | writeToStream d f => exact afterCall_pushes (w.record _) a _ (.nothing _) (.callGone (.inl ⟨d, f, rfl⟩))
  | stopReading => exact afterCall_pushes w a _ (.nothing _) (.callGone (.inr (.inl rfl)))
  | reset => exact afterCall_pushes (w.record _) a _ (.nothing _) (.callGone (.inr (.inr rfl)))

end World

/-! ## What a block leaves alone -/

inductive TunnelField
  | started | closed | queue | done | onClosed | socketDisconnected | status | stream

def Op.changes : Op → TunnelField → Bool
  | .start _, .started | .start _, .queue | .fillAfterRead _ _, .queue | .maybeFlushQuicToTcp, .queue
  | .close _ _, .closed | .receiveComplete _, .done | .maybeCloseAfterQuicFin, .done
  | .closeAfterDisconnect _, .onClosed | .connectComplete _, .socketDisconnected
  | .closeAfterStopReading _, .socketDisconnected | .disconnect, .status
  | .read, .stream | .writeToStream _ _, .stream | .stopReading, .stream | .onClosed _, .stream | .reset,
    .stream => true
  | _, _ => false

namespace World

/-- The call a block records. -/
def logs (w : World) : Op → Option Call
  | .start seed => some (.start seed)
  | .receiveComplete data => some (.receiveComplete data)
  | .close reason _ => some (.close reason)
  | .read => some (.read (w.stream.read kReadSize).1)
  | .writeToStream data fin => some (.writeToStream data fin)
  | .receiveAsync => some .receiveAsync
  | .sendAsync chunk => some (.sendAsync chunk)
  | .disconnect => some .disconnect
  | .onClosed _ => some .onClosed
  | .onClosedReturned _ => some .onClosedReturned
  | .reset => some .reset
  | _ => none

/-- What block `op` leaves of the world, apart from the stack. -/
structure Leaves (w : World) (op : Op) (w' : World) : Prop where
  log : w'.log = w.log ++ (w.logs op).toList
  hasSocket : w'.tunnel.hasSocket = w.tunnel.hasSocket
  started : op.changes .started = false → w'.tunnel.started = w.tunnel.started
  closed : op.changes .closed = false → w'.tunnel.closed = w.tunnel.closed
  stillOpen : w'.tunnel.closed = false → w.tunnel.closed = false
  queue : op.changes .queue = false → w'.tunnel.pendingToTcp = w.tunnel.pendingToTcp
  done : op.changes .done = false → w'.tunnel.tcpReceiveDone = w.tunnel.tcpReceiveDone
  doneTime : op.changes .done = false → w'.tunnel.sendDoneTime = w.tunnel.sendDoneTime
  onClosed : op.changes .onClosed = false → w'.tunnel.onClosed = w.tunnel.onClosed
  socketDisconnected : op.changes .socketDisconnected = false →
    w'.tunnel.socketDisconnected = w.tunnel.socketDisconnected
  status : op.changes .status = false → w'.socket.status = w.socket.status
  stream : op.changes .stream = false → w'.stream = w.stream
  connected : w'.connected = true → w.connected = true

theorem exec_leaves (w : World) (a : Answer) (op : Op) : Leaves w op (w.exec a op) := by
  cases op <;>
    simp only [exec, start, onStreamDataAvailable, onStreamCanWriteMore, onStreamGone, connectComplete, receiveComplete,
      finishSending, sendComplete, fillQueueFromStream, fillAfterRead, enqueue, beginReadFromTcp, maybeFlushQuicToTcp,
      maybeCloseAfterQuicFin, maybeFinalizeClose, armAlarm, close, receiveAfterWrite, closeAfterStopReading,
      closeAfterDisconnect, closeAfterOnClosed, receiveAsync, sendAsync, onClosedReturned]
  all_goals repeat' split
  all_goals constructor
  all_goals first
    | rfl
    | exact (List.append_nil _).symm
    | exact fun _ => rfl
    | exact (by rintro ⟨⟩)
    | exact id
    | exact fun h => (Bool.and_eq_true_iff.1 h).1

theorem init_inv (client : Bool) (seed : Bytes) (s : QuictunStream) (me : Nat) (k : QuictunIdleTracker Nat)
    (now : Time) : Inv (init client seed s me k now) := by
  refine Core.stay ⟨?_, ?_, ?_, ?_, ?_, ?_, ?_, ?_, ?_, ?_, ?_, ?_⟩ (by simp [init]) <;> simp [init]
  split <;> simp

end World

end Quictun
