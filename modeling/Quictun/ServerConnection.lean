import Mathlib.Logic.Function.Basic
import Quictun.Run
import Quictun.Preamble

/-!
# A server connection and its streams

`QuictunServerConnection` with the part of its session that routes stream events: the live
streams, their delegates, the buffers of streams that have not authenticated yet and the
tunnels of those that have. As for a single tunnel, `todo` is the call stack.

A tunnel appears here only with the calls it makes on its stream and on its owner.
`started` records the streams for which `StartTunnelForStream()` has run. No code reads it.
-/

namespace Quictun

def kKeyReadSize : Nat := 512

inductive Delegate
  | owner | tunnel
deriving DecidableEq

structure StreamTarget where
  tunnelClosed : Bool := false
  pendingSeedData : Bytes := []
  dest : Option QuicSocketAddress := none
  targetSocketDisconnected : Bool := false
deriving DecidableEq

namespace Server

inductive Op
  | onStreamDataAvailable (id : Nat)
  | read (id : Nat)
  | afterRead (id : Nat) (data : Bytes) (fin : Bool)
  | reject (id : Nat)
  | eraseKeyReadBuffer (id : Nat)
  | startTunnelForStream (id : Nat) (leftover : Bytes) (dest : Option QuicSocketAddress)
  | connectAsync (id : Nat)
  | onStreamGone (id : Nat)
  | closeTunnel (id : Nat) (resetStream : Bool)
  | stopReading (id : Nat)
  | onTunnelClosed (id : Nat)
  | resetStream (id : Nat)
  | connectionClosed
  | abort (id : Nat)
  | close
  | closeTunnels
  | clear
deriving DecidableEq

structure Answer where
  connectionFails : Bool := false
  finReached : Bool := false
  connect : Option Bool := none
deriving DecidableEq

end Server

structure QuictunServerConnection where
  expectedPsk : Bytes
  transparent : Bool
  closed : Bool := false
  connected : Bool := true
  /-- Every stream the session has created. -/
  ids : List Nat := []
  streams : Nat → Option QuictunStream := fun _ => none
  delegates : Nat → Option Delegate := fun _ => none
  keyReadBuffers : Nat → Option Bytes := fun _ => none
  streamTargets : Nat → Option StreamTarget := fun _ => none
  closedStreamTargets : List StreamTarget := []
  todo : List Server.Op := []
  started : List Nat := []

namespace QuictunServerConnection

open Function Server

variable (c : QuictunServerConnection)

def push (ops : List Op) : QuictunServerConnection := { c with todo := ops ++ c.todo }

/-- The connection that runs a block taken off the stack. -/
abbrev pop (rest : List Op) : QuictunServerConnection := { c with todo := rest }

def setStream (id : Nat) (s : QuictunStream) : QuictunServerConnection :=
  { c with streams := update c.streams id (some s) }

def setBuffer (id : Nat) (b : Option Bytes) : QuictunServerConnection :=
  { c with keyReadBuffers := update c.keyReadBuffers id b }

/-! ## Authentication -/

def onStreamDataAvailable (id : Nat) : QuictunServerConnection :=
  if (c.keyReadBuffers id).isNone || c.closed || (c.streams id).isNone then c else c.push [.read id]

/-- The loop body after `Read()`. The code goes on with the entry it looked up before the call; if that
entry is gone by now (`none`), its behaviour is undefined and the model stops there. -/
def afterRead (id : Nat) (data : Bytes) (fin : Bool) : QuictunServerConnection :=
  match c.keyReadBuffers id with
  | none => c
  | some buf =>
    match examine c.expectedPsk c.transparent (buf ++ data) with
    | .reject => (c.setBuffer id (some (buf ++ data))).push [.reject id, .eraseKeyReadBuffer id]
    | .accept leftover dest => (c.setBuffer id none).push [.startTunnelForStream id leftover dest]
    | .more =>
      if data.isEmpty then c.setBuffer id (if fin then none else some buf)
      else (c.setBuffer id (some (buf ++ data))).push [.read id]

def startTunnelForStream (id : Nat) (leftover : Bytes) (dest : Option QuicSocketAddress) :
    QuictunServerConnection :=
  { c with
    streamTargets := update c.streamTargets id (some { pendingSeedData := leftover, dest := dest })
    delegates := update c.delegates id (some .tunnel)
    started := c.started ++ [id] }.push [.connectAsync id]

/-! ## Closing -/

def closeTunnel (id : Nat) (resetStream : Bool) : QuictunServerConnection :=
  match c.streamTargets id with
  | none => c
  | some t =>
    if t.tunnelClosed then c
    else { c with streamTargets := update c.streamTargets id (some { t with tunnelClosed := true }) }.push
      (.stopReading id :: .onTunnelClosed id :: if resetStream then [.resetStream id] else [])

def onTunnelClosed (id : Nat) : QuictunServerConnection :=
  match c.streamTargets id with
  | none => c
  | some t =>
    { c with
      delegates := update c.delegates id none
      closedStreamTargets := c.closedStreamTargets ++ [{ t with targetSocketDisconnected := true }]
      streamTargets := update c.streamTargets id none }

def forgetStream (id : Nat) : QuictunServerConnection :=
  { c with streams := update c.streams id none, delegates := update c.delegates id none }

def onStreamGone (id : Nat) : QuictunServerConnection :=
  match c.delegates id with
  | none => c.forgetStream id
  | some .owner => (c.forgetStream id).setBuffer id none
  | some .tunnel => (c.forgetStream id).closeTunnel id false

def connectionClosed : QuictunServerConnection :=
  { c with connected := false }.push ((c.ids.filter fun id => (c.streams id).isSome).map Op.abort ++ [Op.close])

def close : QuictunServerConnection :=
  if c.closed then c
  else { c with closed := true }.push
    (if c.connected then [.connectionClosed, .closeTunnels, .clear] else [.closeTunnels, .clear])

def closeTunnels : QuictunServerConnection :=
  c.push ((c.ids.filter fun id => (c.streamTargets id).isSome).map fun id => Op.closeTunnel id false)

def clear : QuictunServerConnection :=
  { c with streamTargets := fun _ => none, keyReadBuffers := fun _ => none }

/-! ## Calls on a stream -/

/-- A call has left stream `id` as `r.1`, and closed it if `r.2`; a write that failed inside the call has taken
the connection down. -/
def afterCall (a : Answer) (id : Nat) (r : QuictunStream × Bool) (ops : List Op) :
    QuictunServerConnection :=
  (c.setStream id r.1).push ((if r.2 then [.onStreamGone id] else []) ++
    (if a.connectionFails && c.connected then [.connectionClosed] else []) ++ ops)

def read (c : QuictunServerConnection) (a : Answer) (id : Nat) : QuictunServerConnection :=
  match c.streams id with
  | none => c
  | some s => c.afterCall a id (s.read kKeyReadSize).2.2
    [.afterRead id (s.read kKeyReadSize).1 (s.read kKeyReadSize).2.1]

def stopReading (c : QuictunServerConnection) (a : Answer) (id : Nat) : QuictunServerConnection :=
  match c.streams id with
  | none => c
  | some s => c.afterCall a id (s.stopReading a.finReached) []

def reset (c : QuictunServerConnection) (a : Answer) (id : Nat) : QuictunServerConnection :=
  match c.streams id with
  | none => c
  | some s => c.afterCall a id s.reset []

def abort (id : Nat) : QuictunServerConnection :=
  match c.streams id with
  | none => c
  | some s => c.afterCall {} id s.onConnectionClosed []

def exec (a : Answer) : Op → QuictunServerConnection
  | .onStreamDataAvailable id => c.onStreamDataAvailable id
  | .read id => c.read a id
  | .afterRead id data fin => c.afterRead id data fin
  | .reject id => c.reset a id
  | .eraseKeyReadBuffer id => c.setBuffer id none
  | .startTunnelForStream id leftover dest => c.startTunnelForStream id leftover dest
  | .connectAsync id => if a.connect = some false then c.push [.closeTunnel id true] else c
  | .onStreamGone id => c.onStreamGone id
  | .closeTunnel id resetStream => c.closeTunnel id resetStream
  | .stopReading id => c.stopReading a id
  | .onTunnelClosed id => c.onTunnelClosed id
  | .resetStream id => if c.connected then c.reset a id else c
  | .connectionClosed => c.connectionClosed
  | .abort id => c.abort id
  | .close => c.close
  | .closeTunnels => c.closeTunnels
  | .clear => c.clear

end QuictunServerConnection

/-! ## Runs -/

namespace Server

/-- The code runs on; or, between two callbacks, the peer, the network, a tunnel or the driver acts. -/
inductive Ev
  | exec (a : Answer)
  | newStream (id : Nat)
  | streamFrame (id : Nat) (bs : Bytes) (fin : Bool)
  | streamReset (id : Nat) (error : Bool)
  | stopSending (id : Nat) (error : Bool)
  | canWrite (id : Nat) (k : Nat) (finTaken : Bool)
  | ack (id : Nat) (k : Nat) (fin : Bool)
  | tunnelRead (id : Nat) (n : Nat) (a : Answer)
  | tunnelWrite (id : Nat) (data : Bytes) (fin : Bool) (k : Nat) (finTaken : Bool) (a : Answer)
  | closeTunnel (id : Nat) (resetStream : Bool)
  | connectionClosed
  | close
  | collectStreamGarbage
deriving DecidableEq

end Server

namespace QuictunServerConnection

open Function Server

variable (c : QuictunServerConnection)

/-- Stream `id` has changed to `r.1` and makes the callback `r.2`, which the session passes on. -/
def notified (id : Nat) (r : QuictunStream × Option QuictunStream.Notice) :
    QuictunServerConnection :=
  (c.setStream id r.1).push (match r.2 with
    | some .gone => [.onStreamGone id]
    | some .dataAvailable => if c.delegates id = some .owner then [.onStreamDataAvailable id] else []
    | _ => [])

def tunnelStream (id : Nat) : Option QuictunStream :=
  (c.streamTargets id).bind fun t => if t.tunnelClosed then none else c.streams id

def deliver : Ev → Option QuictunServerConnection
  | .exec _ => none
  -- `CreateStream()` and `OnNewStream()`
  | .newStream id =>
    if id ∈ c.ids || !c.connected then none
    else
      let c := { c with ids := c.ids ++ [id] }.setStream id {}
      if c.closed then some c
      else some (({ c with delegates := update c.delegates id (some .owner) }.setBuffer id (some [])).push
        [.onStreamDataAvailable id])
  | .streamFrame id bs fin => (c.streams id).map fun s => c.notified id (s.onStreamFrame bs fin)
  | .streamReset id error => (c.streams id).map fun s =>
      c.notified id ((s.onStreamReset error).1, QuictunStream.goneIf (s.onStreamReset error).2)
  | .stopSending id error => (c.streams id).map fun s =>
      c.notified id ((s.onStopSending error).1, QuictunStream.goneIf (s.onStopSending error).2)
  | .canWrite id k finTaken => (c.streams id).map fun s => c.notified id (s.onCanWrite k finTaken)
  | .ack id k fin => (c.streams id).map fun s => c.notified id (s.onAck k fin, none)
  | .tunnelRead id n a => (c.tunnelStream id).map fun s => c.afterCall a id (s.read n).2.2 []
  | .tunnelWrite id data fin k finTaken a => (c.tunnelStream id).map fun s =>
      c.afterCall a id (s.writeToStream data fin k finTaken) []
  | .closeTunnel id resetStream => some (c.closeTunnel id resetStream)
  | .connectionClosed => if c.connected then some c.connectionClosed else none
  | .close => some c.close
  | .collectStreamGarbage => some { c with closedStreamTargets := [] }

def step : Ev → Option QuictunServerConnection
  | .exec a =>
    match c.todo with
    | [] => none
    | op :: rest => some ({ c with todo := rest }.exec a op)
  | e => if c.todo = [] then c.deliver e else none

def init (psk : Bytes) (transparent : Bool) : QuictunServerConnection where
  expectedPsk := psk
  transparent := transparent

end QuictunServerConnection

end Quictun
