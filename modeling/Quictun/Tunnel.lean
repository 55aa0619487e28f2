import Quictun.Run
import Quictun.IdleTracker
import Quictun.Stream

/-!
# A tunnel, its stream and its socket

`QuictunTunnel` is re-entrant: a call it makes on its stream or socket may call back into
it before returning. So the model keeps the call stack: `todo` lists the blocks of code
still to run, innermost call first. Running a block updates the state and pushes what it
calls and what is left to do after the call; a call out of the tunnel is a block of its
own, which takes its outcome from an `Answer` and pushes the callbacks it makes before it
returns. The event loop delivers the next callback when `todo` is empty.

`log` records the calls that the properties are about. No code reads it.
-/

namespace Quictun

def kReadSize : Nat := 16 * 1024
def kMaxQueuedChunks : Nat := 4
def kMaxFlushCloseWait : Time := 3000000
def kFlushCloseRetryInterval : Time := 100000

inductive CloseReason
  | streamClosed | targetConnectFailed | tcpReceiveError | tcpSendError
  | tunnelFinished | flushWaitExceeded | byOwner
deriving DecidableEq

structure Tunnel extends IdleState where
  hasSocket : Bool := false
  /-- `on_closed_` has not been moved out yet. -/
  onClosed : Bool := true
  pendingSeedData : Bytes := []
  pendingToTcp : List Bytes := []
  tcpSendInFlight : Bool := false
  tcpReceiveInFlight : Bool := false
  tcpReceiveDone : Bool := false
  /-- `none` before the alarm is created, then its deadline while it is set. -/
  flushCloseAlarm : Option (Option Time) := none
  sendDoneTime : Time := 0
  quicReceiveDone : Bool := false
  socketDisconnected : Bool := false
deriving DecidableEq

inductive ConnectStatus
  | notConnected | connecting | connected
deriving DecidableEq

/-- What a completion reports; `cancelled` is the `CancelledError` of `Disconnect()`. -/
inductive Status
  | ok | failed | cancelled
deriving DecidableEq

/-- What `ReceiveComplete` gets: a slice, empty at end of file, or an error. -/
inductive Received
  | slice (bs : Bytes) | failed | cancelled
deriving DecidableEq

def Status.ofBool (ok : Bool) : Status := if ok then .ok else .failed

def Received.ofOption : Option Bytes → Received
  | some bs => .slice bs
  | none => .failed

/-- A connecting socket: its status and the operations its user is still owed a completion for. -/
structure Socket where
  status : ConnectStatus := .notConnected
  receiving : Bool := false
  sending : Bool := false
deriving DecidableEq

inductive Op
  -- functions of the tunnel
  | start (seed : Bytes)
  | onStreamDataAvailable
  | onStreamCanWriteMore
  | onStreamGone
  | connectComplete (status : Status)
  | receiveComplete (data : Received)
  | sendComplete (status : Status)
  | onFlushCloseAlarm
  | fillQueueFromStream
  | beginReadFromTcp
  | maybeFlushQuicToTcp
  | maybeCloseAfterQuicFin
  | maybeFinalizeClose
  | close (reason : CloseReason) (resetStream : Bool)
  -- what is left of a function after a call it made
  | fillAfterRead (data : Bytes) (fin : Bool)
  | receiveAfterWrite
  | receiveEnd
  | flushEnd
  | closeAfterStopReading (resetStream : Bool)
  | closeAfterDisconnect (resetStream : Bool)
  | onClosedReturned (resetStream : Bool)
  | closeAfterOnClosed (resetStream : Bool)
  -- calls out of the tunnel
  | read
  | writeToStream (data : Bytes) (fin : Bool)
  | stopReading
  | receiveAsync
  | sendAsync (chunk : Bytes)
  | disconnect
  | onClosed (resetStream : Bool)
  | reset
deriving DecidableEq

inductive Call
  | start (seed : Bytes)
  | receiveComplete (data : Received)
  | close (reason : CloseReason)
  | read (data : Bytes)
  | writeToStream (data : Bytes) (fin : Bool)
  | receiveAsync
  | sendAsync (chunk : Bytes)
  | disconnect
  | onClosed
  | onClosedReturned
  | reset
deriving DecidableEq

structure World where
  tunnel : Tunnel
  stream : QuictunStream
  socket : Socket
  me : Nat
  tracker : QuictunIdleTracker Nat
  connected : Bool
  now : Time
  todo : List Op
  log : List Call
deriving DecidableEq

/-- How a call out of the tunnel goes: a write that fails takes the connection down; a socket operation may complete
before it returns. -/
structure Answer where
  connectionFails : Bool := false
  taken : Nat := 0
  finTaken : Bool := false
  finReached : Bool := false
  received : Option (Option Bytes) := none
  sent : Option Bool := none
deriving DecidableEq

namespace World

variable (w : World)

def push (ops : List Op) : World := { w with todo := ops ++ w.todo }

/-- The world in which a block taken off the stack runs. -/
abbrev pop (rest : List Op) : World := { w with todo := rest }

def record (c : Call) : World := { w with log := w.log ++ [c] }

def isHoldingBuffer : Bool :=
  decide (kMaxQueuedChunks ≤ w.tunnel.pendingToTcp.length) || w.stream.hasBufferedData

def noteActivity (w : World) : World :=
  let r := w.tracker.noteActivity w.me w.tunnel.toIdleState w.now w.isHoldingBuffer
  { w with
    tracker := r.1
    tunnel := { w.tunnel with stalled := r.2.stalled, lastActivity := r.2.lastActivity } }

def updateIdleClass (w : World) : World :=
  let r := w.tracker.updateIdleClass w.me w.tunnel.toIdleState w.now w.isHoldingBuffer
  { w with
    tracker := r.1
    tunnel := { w.tunnel with stalled := r.2.stalled, lastActivity := r.2.lastActivity } }

/-! ## The tunnel's functions -/

def launch (seed : Bytes) : World :=
  { w with
    tunnel := { w.tunnel with
      started := true
      pendingToTcp := if seed.isEmpty then w.tunnel.pendingToTcp else w.tunnel.pendingToTcp ++ [seed] }
    log := w.log ++ [.start seed] }

def start (seed : Bytes) : World :=
  (w.launch seed).noteActivity.push [.fillQueueFromStream, .beginReadFromTcp, .maybeFlushQuicToTcp]

def onStreamDataAvailable : World :=
  if w.tunnel.closed || !w.tunnel.started then w
  else w.push [.fillQueueFromStream, .maybeFlushQuicToTcp]

def onStreamCanWriteMore : World :=
  if w.tunnel.closed || !w.tunnel.started then w
  else if w.tunnel.tcpReceiveDone then w.push [.maybeFinalizeClose]
  else if w.tunnel.tcpReceiveInFlight || w.stream.hasBufferedData then w.updateIdleClass
  else w.updateIdleClass.push [.beginReadFromTcp]

def onStreamGone : World :=
  if w.tunnel.closed then w else w.push [.close .streamClosed false]

def disconnected : World := { w with tunnel := { w.tunnel with socketDisconnected := true } }

def connectComplete (status : Status) : World :=
  if w.tunnel.closed then w
  else if status = .ok then w.push [.start w.tunnel.pendingSeedData]
  else w.disconnected.push [.close .targetConnectFailed true]

def sendDone : World :=
  { w with tunnel := { w.tunnel with tcpReceiveDone := true, sendDoneTime := w.now } }

def finishSending : World := w.sendDone.push [.writeToStream [] true, .maybeFinalizeClose]

def receiveArrived (data : Received) : World :=
  { w with
    tunnel := { w.tunnel with tcpReceiveInFlight := false }
    log := w.log ++ [.receiveComplete data] }

def receiveComplete (data : Received) : World :=
  if w.tunnel.closed then w.receiveArrived data
  else match data with
    | .slice [] => (w.receiveArrived data).finishSending
    | .slice (b :: bs) => (w.receiveArrived data).noteActivity.push [.writeToStream (b :: bs) false, .receiveAfterWrite]
    | _ => (w.receiveArrived data).push [.close .tcpReceiveError true]

def receiveAfterWrite : World :=
  if w.stream.hasBufferedData then w.push [.receiveEnd] else w.push [.beginReadFromTcp, .receiveEnd]

def sendArrived : World := { w with tunnel := { w.tunnel with tcpSendInFlight := false } }

def sendComplete (status : Status) : World :=
  if w.tunnel.closed then w.sendArrived
  else if status = .ok then w.sendArrived.push [.fillQueueFromStream, .maybeFlushQuicToTcp]
  else w.sendArrived.push [.close .tcpSendError true]

def fillQueueFromStream : World :=
  if w.tunnel.pendingToTcp.length < kMaxQueuedChunks then w.push [.read] else w.updateIdleClass

def enqueue (data : Bytes) : World :=
  if data.isEmpty then w
  else { w.noteActivity with tunnel := { w.noteActivity.tunnel with pendingToTcp := w.tunnel.pendingToTcp ++ [data] } }

def quicFinished : World := { w with tunnel := { w.tunnel with quicReceiveDone := true } }

def fillAfterRead (data : Bytes) (fin : Bool) : World :=
  if fin then (w.enqueue data).quicFinished.updateIdleClass
  else if data.isEmpty then w.updateIdleClass
  else (w.enqueue data).push [.fillQueueFromStream]

def receiveBegun : World := { w with tunnel := { w.tunnel with tcpReceiveInFlight := true } }

def beginReadFromTcp : World :=
  if w.tunnel.closed || w.tunnel.tcpReceiveInFlight || w.tunnel.tcpReceiveDone || !w.tunnel.hasSocket then w
  else w.receiveBegun.push [.receiveAsync]

def dequeued (rest : List Bytes) : World :=
  { w with tunnel := { w.tunnel with pendingToTcp := rest, tcpSendInFlight := true } }

def maybeFlushQuicToTcp : World :=
  if w.tunnel.closed || w.tunnel.tcpSendInFlight || !w.tunnel.hasSocket then w
  else match w.tunnel.pendingToTcp with
    | [] => w.push [.maybeCloseAfterQuicFin]
    | chunk :: rest => (w.dequeued rest).push [.sendAsync chunk, .flushEnd]

def maybeCloseAfterQuicFin : World :=
  if w.tunnel.closed || !w.tunnel.quicReceiveDone then w
  else if w.tunnel.tcpReceiveDone then w.push [.maybeFinalizeClose]
  else w.finishSending

def cancelAlarm : World :=
  { w with tunnel := { w.tunnel with flushCloseAlarm := w.tunnel.flushCloseAlarm.map fun _ => none } }

def setAlarm (deadline : Time) : World :=
  { w with tunnel := { w.tunnel with flushCloseAlarm := some (some deadline) } }

/-- The alarm is created if need be, and only ever brought forward. -/
def armAlarm (deadline : Time) : World :=
  match w.tunnel.flushCloseAlarm with
  | some (some d) => if deadline < d then w.setAlarm deadline else w
  | _ => w.setAlarm deadline

def maybeFinalizeClose : World :=
  if w.tunnel.closed || !w.tunnel.tcpReceiveDone then w
  else if !w.stream.hasBufferedData && !w.stream.isWaitingForAcks then
    w.cancelAlarm.push [.close .tunnelFinished false]
  else if kMaxFlushCloseWait ≤ w.now - w.tunnel.sendDoneTime then
    w.cancelAlarm.push [.close .flushWaitExceeded true]
  else w.armAlarm (min (w.now + kFlushCloseRetryInterval) (w.tunnel.sendDoneTime + kMaxFlushCloseWait))

def shut (reason : CloseReason) : World :=
  { w.cancelAlarm with
    tunnel := { w.cancelAlarm.tunnel with closed := true }
    tracker := w.tracker.remove w.me
    log := w.log ++ [.close reason] }

def close (reason : CloseReason) (resetStream : Bool) : World :=
  if w.stream.readingStopped then (w.shut reason).push [.closeAfterStopReading resetStream]
  else (w.shut reason).push [.stopReading, .closeAfterStopReading resetStream]

def closeAfterStopReading (resetStream : Bool) : World :=
  if w.tunnel.hasSocket && !w.tunnel.socketDisconnected then
    w.disconnected.push [.disconnect, .closeAfterDisconnect resetStream]
  else w.push [.closeAfterDisconnect resetStream]

def onClosedTaken : World := { w with tunnel := { w.tunnel with onClosed := false } }

def closeAfterDisconnect (resetStream : Bool) : World :=
  if w.tunnel.onClosed then w.onClosedTaken.push [.onClosed resetStream]
  else w.push [.closeAfterOnClosed resetStream]

def closeAfterOnClosed (resetStream : Bool) : World :=
  if resetStream && w.connected then w.push [.reset] else w

def onClosedReturned (w : World) (resetStream : Bool) : World :=
  (w.record .onClosedReturned).push [.closeAfterOnClosed resetStream]

/-! ## Calls out of the tunnel -/

/-- A call on the stream has left it as `r`; then `ops` go on. `OnStreamGone()` comes first if
the call closed the stream, by itself or together with the connection. -/
def afterCall (a : Answer) (r : QuictunStream × Bool) (ops : List Op) : World :=
  let q := if a.connectionFails && w.connected then r.1.onConnectionClosed else (r.1, false)
  { w with stream := q.1, connected := w.connected && !a.connectionFails }.push
    (if r.2 || q.2 then .onStreamGone :: ops else ops)

def read (w : World) (a : Answer) : World :=
  let r := w.stream.read kReadSize
  (w.record (.read r.1)).afterCall a r.2.2 [.fillAfterRead r.1 r.2.1]

def writeToStream (w : World) (a : Answer) (data : Bytes) (fin : Bool) : World :=
  (w.record (.writeToStream data fin)).afterCall a (w.stream.writeToStream data fin a.taken a.finTaken) []

def stopReading (w : World) (a : Answer) : World :=
  w.afterCall a (w.stream.stopReading a.finReached) []

def receiveAsync (w : World) (a : Answer) : World :=
  match a.received with
  | some data => (w.record .receiveAsync).push [.receiveComplete (.ofOption data)]
  | none => { w with socket := { w.socket with receiving := true } }.record .receiveAsync

def sendAsync (w : World) (a : Answer) (chunk : Bytes) : World :=
  match a.sent with
  | some ok => (w.record (.sendAsync chunk)).push [.sendComplete (.ofBool ok)]
  | none => { w with socket := { w.socket with sending := true } }.record (.sendAsync chunk)

def cancelled (s : Socket) : List Op :=
  (if s.status = .connecting then [.connectComplete .cancelled] else []) ++
    (if s.receiving then [.receiveComplete .cancelled] else []) ++ if s.sending then [.sendComplete .cancelled] else []

-- `Disconnect()` forgets the operations first and completes them afterwards
def disconnect (w : World) : World :=
  ({ w with socket := {} }.record .disconnect).push (cancelled w.socket)

def onClosed (w : World) (a : Answer) (resetStream : Bool) : World :=
  (w.record .onClosed).afterCall a (w.stream, false) [.onClosedReturned resetStream]

def reset (w : World) (a : Answer) : World := (w.record .reset).afterCall a w.stream.reset []

def exec (a : Answer) : Op → World
  | .start seed => w.start seed
  | .onStreamDataAvailable => w.onStreamDataAvailable
  | .onStreamCanWriteMore => w.onStreamCanWriteMore
  | .onStreamGone => w.onStreamGone
  | .connectComplete status => w.connectComplete status
  | .receiveComplete data => w.receiveComplete data
  | .sendComplete status => w.sendComplete status
  | .onFlushCloseAlarm => w.maybeFinalizeClose
  | .fillQueueFromStream => w.fillQueueFromStream
  | .beginReadFromTcp => w.beginReadFromTcp
  | .maybeFlushQuicToTcp => w.maybeFlushQuicToTcp
  | .maybeCloseAfterQuicFin => w.maybeCloseAfterQuicFin
  | .maybeFinalizeClose => w.maybeFinalizeClose
  | .close reason resetStream => w.close reason resetStream
  | .fillAfterRead data fin => w.fillAfterRead data fin
  | .receiveAfterWrite => w.receiveAfterWrite
  | .receiveEnd => w.updateIdleClass
  | .flushEnd => w.updateIdleClass
  | .closeAfterStopReading resetStream => w.closeAfterStopReading resetStream
  | .closeAfterDisconnect resetStream => w.closeAfterDisconnect resetStream
  | .onClosedReturned resetStream => w.onClosedReturned resetStream
  | .closeAfterOnClosed resetStream => w.closeAfterOnClosed resetStream
  | .read => w.read a
  | .writeToStream data fin => w.writeToStream a data fin
  | .stopReading => w.stopReading a
  | .receiveAsync => w.receiveAsync a
  | .sendAsync chunk => w.sendAsync a chunk
  | .disconnect => w.disconnect
  | .onClosed resetStream => w.onClosed a resetStream
  | .reset => w.reset a

end World

/-! ## Runs -/

/-- What can happen next: the code runs on, the clock moves, other tunnels file themselves, or
(between two callbacks) the peer, the network, the socket, the alarm or the owner acts. -/
inductive Ev
  | exec (a : Answer)
  | tick (d : Nat)
  | siblings (k : QuictunIdleTracker Nat)
  | streamFrame (bs : Bytes) (fin : Bool)
  | streamReset (error : Bool)
  | stopSending (error : Bool)
  | canWrite (k : Nat) (finTaken : Bool)
  | ack (k : Nat) (fin : Bool)
  | connectionClosed
  | dial (result : Option Bool)
  | start (seed : Bytes)
  | connectDone (ok : Bool)
  | receiveDone (data : Option Bytes)
  | sendDone (ok : Bool)
  | alarm
  | ownerClose (resetStream : Bool)
deriving DecidableEq

namespace World

variable (w : World)

def notified (r : QuictunStream × Option QuictunStream.Notice) : World :=
  { w with
    stream := r.1
    todo := match r.2 with
      | none => []
      | some .gone => [.onStreamGone]
      | some .dataAvailable => [.onStreamDataAvailable]
      | some .canWriteMore => [.onStreamCanWriteMore] }

def goneIf (r : QuictunStream × Bool) : QuictunStream × Option QuictunStream.Notice :=
  (r.1, QuictunStream.goneIf r.2)

/-- A connect attempt ends. A socket that could not connect has closed itself by then. -/
def connectEnds (ok : Bool) : World :=
  { w with
    socket := { w.socket with status := if ok then .connected else .notConnected }
    todo := [.connectComplete (.ofBool ok)] }

def deliver : Ev → Option World
  | .streamFrame bs fin => some (w.notified (w.stream.onStreamFrame bs fin))
  | .streamReset error => some (w.notified (goneIf (w.stream.onStreamReset error)))
  | .stopSending error => some (w.notified (goneIf (w.stream.onStopSending error)))
  | .canWrite k finTaken => some (w.notified (w.stream.onCanWrite k finTaken))
  | .ack k fin => some (w.notified (w.stream.onAck k fin, none))
  | .connectionClosed => some { w.notified (goneIf w.stream.onConnectionClosed) with connected := false }
  -- the server's `SetSocket()` and `ConnectAsync()`, one right after the other
  | .dial result =>
    if w.tunnel.hasSocket || w.tunnel.closed then none
    else
      let w := { w with tunnel := { w.tunnel with hasSocket := true } }
      match result with
      | none => some { w with socket := { w.socket with status := .connecting } }
      | some ok => some (w.connectEnds ok)
  | .start seed =>
    if w.tunnel.hasSocket && w.socket.status == .connected && !w.tunnel.started && !w.tunnel.closed then
      some { w with todo := [.start seed] }
    else none
  | .connectDone ok =>
    if w.socket.status = .connecting then some (w.connectEnds ok) else none
  | .receiveDone data =>
    if w.socket.receiving then
      some { w with socket := { w.socket with receiving := false }, todo := [.receiveComplete (.ofOption data)] }
    else none
  | .sendDone ok =>
    if w.socket.sending then
      some { w with socket := { w.socket with sending := false }, todo := [.sendComplete (.ofBool ok)] }
    else none
  | .alarm =>
    match w.tunnel.flushCloseAlarm with
    | some (some d) =>
      if d ≤ w.now then
        some { w with tunnel := { w.tunnel with flushCloseAlarm := some none }, todo := [.onFlushCloseAlarm] }
      else none
    | _ => none
  | .ownerClose resetStream =>
    if w.tunnel.closed then none else some { w with todo := [.close .byOwner resetStream] }
  | _ => none

def sameFor (me : Nat) (k k' : QuictunIdleTracker Nat) : Bool :=
  k.order.count me == k'.order.count me && k.stalledOrder.count me == k'.stalledOrder.count me

def step : Ev → Option World
  | .exec a =>
    match w.todo with
    | [] => none
    | op :: rest => some ({ w with todo := rest }.exec a op)
  | .tick d => some { w with now := w.now + d }
  | .siblings k => if sameFor w.me w.tracker k then some { w with tracker := k } else none
  | e => if w.todo = [] then w.deliver e else none

def init (client : Bool) (seed : Bytes) (s : QuictunStream) (me : Nat) (k : QuictunIdleTracker Nat) (now : Time) :
    World where
  tunnel := { hasSocket := client, pendingSeedData := seed }
  stream := s
  socket := { status := if client then .connected else .notConnected }
  me := me
  tracker := k
  connected := true
  now := now
  todo := []
  log := []

end World

end Quictun
