import Quictun.Run
import Quictun.FlatMap

/-!
# The client driver

`QuictunClientDriver` routes packets by the client connection ID in them. A connection is
entered into `by_cid_` and `connections_` by `CreateNewConnection()`, after its constructor
has sent the first handshake flight. It is taken out of `by_cid_` by `RemoveConnection()`,
which its `Close()` calls, and destroyed by the next `CollectGarbage()`.

An address is free again once its connection has been destroyed. A `weak_ptr` also knows
which of the connections at an address it was made from, here by a serial number. Following
a pointer to a destroyed connection sets `wild`.
-/

namespace Quictun

namespace Client

abbrev ConnPtr := Nat
abbrev SocketFd := Nat

/-- What comes of something a connection does: its packets are written, its writer is
blocked, or the connection closes, as it does at once when a write fails. -/
inductive Outcome
  | written | blocked | closed
deriving DecidableEq

inductive OpenOutcome
  | notCreated | notConnected | noAddress | notRegistered
  | opened (fd : SocketFd)
deriving DecidableEq

structure UdpSocket where
  fd : Option SocketFd := none
  writer : Option Nat := none
  writeBlockedList : List ConnPtr := []
deriving DecidableEq

namespace UdpSocket

def add (u : UdpSocket) (p : ConnPtr) : UdpSocket :=
  { u with writeBlockedList := if p ∈ u.writeBlockedList then u.writeBlockedList else u.writeBlockedList ++ [p] }

def remove (u : UdpSocket) (p : ConnPtr) : UdpSocket :=
  { u with writeBlockedList := u.writeBlockedList.filter (· != p) }

end UdpSocket

structure QuictunClientConnection where
  serial : Nat
  clientConnectionId : UInt64
  writer : Option Nat
  closed : Bool := false
deriving DecidableEq

structure HeldConnection where
  connection : QuictunClientConnection
  socketIndex : Nat
deriving DecidableEq

structure WeakPtr where
  address : ConnPtr
  serial : Nat
deriving DecidableEq

structure Accepted where
  captured : Bool := true
  reopened : OpenOutcome := .notCreated
  address : ConnPtr
  handshake : List Outcome := []
  assigned : List Outcome := []
deriving DecidableEq

end Client

open Client

structure QuictunClientDriver where
  transparent : Bool
  udpSocketCount : Nat
  udpSockets : Nat → UdpSocket := fun _ => {}
  /-- The descriptors the event loop watches. -/
  registered : List SocketFd := []
  byCid : FlatMap UInt64 ConnPtr := ∅
  nextClientCid : UInt64 := 1
  connections : FlatMap ConnPtr HeldConnection := ∅
  pendingRemoval : List ConnPtr := []
  poolSlots : List (Option WeakPtr)
  poolRoundRobinNext : UInt64 := 0
  nextWriter : Nat := 0
  nextSerial : Nat := 0
  wild : Bool := false

namespace QuictunClientDriver

variable (d : QuictunClientDriver)

def modifySocket (i : Nat) (f : UdpSocket → UdpSocket) : QuictunClientDriver :=
  { d with udpSockets := Function.update d.udpSockets i (f (d.udpSockets i)) }

/-! ## Sockets -/

def udpSocketIsIdle (socketIndex : Nat) : Bool :=
  d.connections.entries.all fun e => e.2.socketIndex != socketIndex

-- the old descriptor is unregistered and closed, and its writer destroyed, whatever comes of the rest
def closeUdpSocket (i : Nat) : QuictunClientDriver :=
  match (d.udpSockets i).fd with
  | some fd => { d.modifySocket i fun u => { u with fd := none, writer := none } with
    registered := d.registered.erase fd }
  | none => d

-- `RegisterSocket()` refuses a descriptor that is watched already
def openUdpSocket (i : Nat) : OpenOutcome → QuictunClientDriver × Bool
  | .opened fd =>
    let d := d.closeUdpSocket i
    if fd ∈ d.registered then (d, false)
    else
      ({ d.modifySocket i fun u => { u with fd := some fd, writer := some d.nextWriter } with
          registered := d.registered ++ [fd], nextWriter := d.nextWriter + 1 }, true)
  | .notCreated | .notConnected | .noAddress | .notRegistered => (d.closeUdpSocket i, false)

variable (p : ConnPtr)

def onWriteBlocked (socketIndex : Nat) : QuictunClientDriver :=
  d.modifySocket socketIndex (·.add p)

/-! ## Closing and destroying -/

def removeConnection (connection : ConnPtr) (socketIndex : Nat) : QuictunClientDriver :=
  { d.modifySocket socketIndex (·.remove connection) with
    byCid := d.byCid.eraseIf fun _ p => p == connection, pendingRemoval := d.pendingRemoval ++ [connection] }

def close (socketIndex : Nat) :
    QuictunClientConnection × QuictunClientDriver → QuictunClientConnection × QuictunClientDriver
  | (c, d) => if c.closed then (c, d) else ({ c with closed := true }, d.removeConnection p socketIndex)

-- a closed connection is disconnected and writes no more
def report (socketIndex : Nat) (s : QuictunClientConnection × QuictunClientDriver) :
    Outcome → QuictunClientConnection × QuictunClientDriver
  | .written => s
  | .blocked => if s.1.closed then s else (s.1, s.2.onWriteBlocked p socketIndex)
  | .closed => close p socketIndex s

def hold (h : HeldConnection) : QuictunClientDriver :=
  { d with connections := d.connections.insert p h }

def act (os : List Outcome) : QuictunClientDriver :=
  match d.connections.lookup p with
  | none => { d with wild := true }
  | some h =>
    let r := os.foldl (report p h.socketIndex) (h.connection, d)
    r.2.hold p { h with connection := r.1 }

def collect : QuictunClientDriver :=
  if p ∈ d.connections then
    { d with udpSockets := fun i => (d.udpSockets i).remove p, connections := d.connections.erase p }
  else d

def collectGarbage : QuictunClientDriver :=
  { d.pendingRemoval.foldl collect d with pendingRemoval := [] }

/-! ## Accepting -/

/-- `QuictunClientConnection::Create()`: nothing of the driver knows the connection yet. -/
def create (socketIndex : Nat) (a : Accepted) : QuictunClientConnection × QuictunClientDriver :=
  a.handshake.foldl (report a.address socketIndex)
    ({ serial := d.nextSerial, clientConnectionId := d.nextClientCid, writer := (d.udpSockets socketIndex).writer },
      { d with nextClientCid := d.nextClientCid + 1, nextSerial := d.nextSerial + 1 })

def register (h : HeldConnection) : QuictunClientDriver :=
  { d with byCid := d.byCid.emplace h.connection.clientConnectionId p, connections := d.connections.emplace p h }

def reopenIfIdle (socketIndex : Nat) (r : OpenOutcome) : QuictunClientDriver × Bool :=
  if d.udpSocketIsIdle socketIndex then d.openUdpSocket socketIndex r else (d, true)

-- `Create()` never returns null, so there is no branch for it
def createNewConnection (socketIndex : Nat) (a : Accepted) :
    QuictunClientDriver × Option WeakPtr :=
  let r := d.reopenIfIdle socketIndex a.reopened
  if r.2 then
    let q := r.1.create socketIndex a
    (q.2.register a.address ⟨q.1, socketIndex⟩, some ⟨a.address, q.1.serial⟩)
  else (r.1, none)

def lock (w : WeakPtr) : Option (ConnPtr × HeldConnection) :=
  (d.connections.lookup w.address).bind fun h => if h.connection.serial = w.serial then some (w.address, h) else none

def slot (idx : Nat) : Option ConnPtr :=
  ((d.poolSlots[idx]?.join).bind d.lock).bind fun e => if e.2.connection.closed then none else some e.1

def nextSlot : Nat := d.poolRoundRobinNext.toNat % d.poolSlots.length

def accept (a : Accepted) : QuictunClientDriver :=
  if d.transparent && !a.captured then d
  else
    let idx := d.nextSlot
    let d := { d with poolRoundRobinNext := d.poolRoundRobinNext + 1 }
    match d.slot idx with
    | some p => d.act p a.assigned
    | none =>
      match d.createNewConnection (idx % d.udpSocketCount) a with
      | (d, none) => d
      | (d, some w) => { d with poolSlots := d.poolSlots.set idx (some w) }.act w.address a.assigned

/-! ## Packets and writable sockets -/

/-- Where `ProcessPacket()` delivers a packet, given the destination connection ID if the header
can be parsed. IDs that are not of 8 bytes are never in `by_cid_`. -/
def recipient (destination : Option UInt64) : Option ConnPtr :=
  destination.bind fun cid => d.byCid.lookup cid

def processPacket (destination : Option UInt64) (os : List Outcome) : QuictunClientDriver :=
  match d.recipient destination with
  | none => d
  | some p => d.act p os

def onWriterUnblocked (i : Nat) (os : ConnPtr → List Outcome) : QuictunClientDriver :=
  (d.udpSockets i).writeBlockedList.foldl (fun d p => d.act p (os p))
    (d.modifySocket i fun u => { u with writeBlockedList := [] })

end QuictunClientDriver

namespace Client

inductive Ev
  | accept (a : Accepted)
  | packet (destination : Option UInt64) (os : List Outcome)
  /-- A timer, a tunnel or a TCP socket makes the connection at `p` do something. -/
  | act (p : ConnPtr) (os : List Outcome)
  | writable (socketIndex : Nat) (os : ConnPtr → List Outcome)
  | collectGarbage

end Client

namespace QuictunClientDriver

/-- The allocator returns the address of no live connection, and only live connections act. -/
def step (d : QuictunClientDriver) : Ev → Option QuictunClientDriver
  | .accept a => if a.address ∈ d.connections then none else some (d.accept a)
  | .packet destination os => some (d.processPacket destination os)
  | .act p os => if p ∈ d.connections then some (d.act p os) else none
  | .writable i os => some (d.onWriterUnblocked i os)
  | .collectGarbage => some d.collectGarbage

def start (transparent : Bool) (udpSocket connPerUdp : Nat) (opens : Nat → OpenOutcome) : QuictunClientDriver :=
  (List.range (max udpSocket 1)).foldl (fun d i => (d.openUdpSocket i (opens i)).1)
    { transparent, udpSocketCount := max udpSocket 1,
      poolSlots := List.replicate (max udpSocket 1 * max connPerUdp 1) none }

end QuictunClientDriver

end Quictun
