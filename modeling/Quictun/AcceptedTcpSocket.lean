import Quictun.Async
import Quictun.Run
import Quictun.SharedSocket
import Quictun.Stack
import Quictun.Stream

/-!
# The accepted TCP socket

`QuictunAcceptedTcpSocket` turns a non-blocking descriptor into `SendAsync()` and `ReceiveAsync()`
with one completion each. A completion runs in the visitor, which may call the socket again: the
stack holds what the interrupted calls have left to do, the innermost first.

The event loop takes an event out of the registration when it collects it and calls
`OnSocketEvent()` later; `fired` is such an event. The kernel's answers are part of the events.
`receives`, `sends`, the bytes and the number of kernel calls are the history; no function reads them.
-/

namespace Quictun

open Async
open Udp (QuicSocketEventMask kSocketEventReadable kSocketEventWritable kSocketEventError)

namespace AcceptedTcp

inductive StatusOr (ρ : Type)
  | ok (value : ρ)
  | unavailable
  | cancelled
  | error
deriving DecidableEq

def StatusOr.status {ρ : Type} : StatusOr ρ → StatusOr Unit
  | ok _ => .ok ()
  | unavailable => .unavailable
  | cancelled => .cancelled
  | error => .error

structure Sending where
  data : Bytes
  accepted : Bytes := []
deriving DecidableEq

inductive Block
  | finished
  | onSocketEventSend (events : QuicSocketEventMask)
  | disconnectSend (requireSendCallback : Bool)
  | disconnected
deriving DecidableEq

inductive Ev
  | receiveAsync (maxSize : Nat) (recv : StatusOr Bytes)
  | sendAsync (data : Bytes) (send : StatusOr Nat)
  | disconnect
  /-- The event loop takes the events out of the registration. -/
  | collect (events : QuicSocketEventMask)
  | onSocketEvent (recv : StatusOr Bytes) (send : StatusOr Nat)
  /-- The innermost completion callback returns. -/
  | returns (send : StatusOr Nat)
deriving DecidableEq

def Ev.isSendAsync : Ev → Bool
  | sendAsync _ _ => true
  | _ => false

def Ev.maxSize : Ev → Option Nat
  | receiveAsync maxSize _ => some maxSize
  | _ => none

def Ev.data : Ev → Option Bytes
  | sendAsync data _ => some data
  | _ => none

def Block.cancels : Block → Bool
  | disconnectSend required => required
  | _ => false

def Block.inDisconnect : Block → Bool
  | disconnectSend _ => true
  | disconnected => true
  | _ => false

def forReceive (events : QuicSocketEventMask) : Bool := events.readable || events.error

def forSend (events : QuicSocketEventMask) : Bool := events.writable || events.error

def Block.sends : Block → Bool
  | onSocketEventSend events => forSend events
  | _ => false

def receivedData (c : Call Nat (StatusOr Bytes)) : Bytes :=
  c.completions.flatMap fun r => match r with
    | .ok data => data
    | _ => []

end AcceptedTcp

open AcceptedTcp

structure QuictunAcceptedTcpSocket where
  edgeTriggered : Bool
  /-- `descriptor_` is valid and registered. -/
  isOpen : Bool := true
  receiveMaxSize : Option Nat := none
  sendData : Option Bytes := none
  sendRemaining : Bytes := []
  armed : QuicSocketEventMask
  fired : Option QuicSocketEventMask := none
  stack : List Block := []
  receives : Calls Nat (StatusOr Bytes) := {}
  sends : Calls Sending (StatusOr Unit) := {}
  kernelReceived : Bytes := []
  kernelSent : Bytes := []
  kernelCalls : Nat := 0
deriving DecidableEq

namespace QuictunAcceptedTcpSocket

/-- The constructor registers for everything if the event loop is edge-triggered, for nothing otherwise. -/
def fresh (edgeTriggered : Bool) : QuictunAcceptedTcpSocket :=
  { edgeTriggered
    armed := if edgeTriggered then ⟨true, true, true⟩ else {} }

variable (s : QuictunAcceptedTcpSocket)

def rearmSocket (events : QuicSocketEventMask) : QuictunAcceptedTcpSocket :=
  if s.edgeTriggered then s else { s with armed := s.armed.union events }

def receiveComplete (data : StatusOr Bytes) (after : Block) :
    QuictunAcceptedTcpSocket :=
  { s with receives := s.receives.complete data, stack := after :: s.stack }

def sendComplete (status : StatusOr Unit) (after : Block) :
    QuictunAcceptedTcpSocket :=
  { s with sends := s.sends.complete status, stack := after :: s.stack }

/-- The kernel fills at most the `receive_max_size_` bytes of the buffer; no byte is the end of the stream. -/
def receiveInternal (maxSize : Nat) (recv : StatusOr Bytes) :
    QuictunAcceptedTcpSocket × StatusOr Bytes :=
  match recv with
  | .ok bytes =>
    let data := bytes.take maxSize
    ({ s with
      receiveMaxSize := none
      kernelCalls := s.kernelCalls + 1
      kernelReceived := s.kernelReceived ++ data }, .ok data)
  | .unavailable => ({ s with kernelCalls := s.kernelCalls + 1 }, .unavailable)
  | .cancelled => ({ s with receiveMaxSize := none, kernelCalls := s.kernelCalls + 1 }, .cancelled)
  | .error => ({ s with receiveMaxSize := none, kernelCalls := s.kernelCalls + 1 }, .error)

def finishOrRearmAsyncReceive (data : StatusOr Bytes) (after : Block) :
    QuictunAcceptedTcpSocket × Bool :=
  if data = .unavailable then (s.rearmSocket (kSocketEventReadable.union kSocketEventError), false)
  else (s.receiveComplete data after, true)

def sendInternal (send : StatusOr Nat) :
    QuictunAcceptedTcpSocket × StatusOr Unit :=
  match send with
  | .ok n =>
    let taken := s.sendRemaining.take n
    ({ s with
      sendRemaining := s.sendRemaining.drop n
      kernelCalls := s.kernelCalls + 1
      kernelSent := s.kernelSent ++ taken
      sends := s.sends.update fun a => { a with accepted := a.accepted ++ taken } }, .ok ())
  | send => ({ s with kernelCalls := s.kernelCalls + 1 }, send.status)

def finishOrRearmAsyncSend (status : StatusOr Unit) : QuictunAcceptedTcpSocket :=
  -- A partial send counts as one that would block.
  let status := if status = .ok () ∧ s.sendRemaining ≠ [] then .unavailable else status
  if status = .unavailable then s.rearmSocket (kSocketEventWritable.union kSocketEventError)
  else { s with sendData := none, sendRemaining := [] }.sendComplete status .finished

def receiveAsync (maxSize : Nat) (recv : StatusOr Bytes) : QuictunAcceptedTcpSocket :=
  let s := { s with receiveMaxSize := some maxSize, receives := s.receives.start maxSize }
  let r := s.receiveInternal maxSize recv
  (r.1.finishOrRearmAsyncReceive r.2 .finished).1

def sendAsync (data : Bytes) (send : StatusOr Nat) : QuictunAcceptedTcpSocket :=
  let s := { s with sendData := some data, sendRemaining := data, sends := s.sends.start { data } }
  let r := s.sendInternal send
  r.1.finishOrRearmAsyncSend r.2

def onSocketEventSend (events : QuicSocketEventMask) (send : StatusOr Nat) :
    QuictunAcceptedTcpSocket :=
  if s.sendRemaining ≠ [] ∧ forSend events = true then
    let r := s.sendInternal send
    r.1.finishOrRearmAsyncSend r.2
  else s

def onSocketEvent (events : QuicSocketEventMask) (recv : StatusOr Bytes)
    (send : StatusOr Nat) : QuictunAcceptedTcpSocket :=
  match s.receiveMaxSize, forReceive events with
  | some maxSize, true =>
    let r := s.receiveInternal maxSize recv
    let f := r.1.finishOrRearmAsyncReceive r.2 (.onSocketEventSend events)
    if f.2 then f.1 else f.1.onSocketEventSend events send
  | _, _ => s.onSocketEventSend events send

def disconnectSend (requireSendCallback : Bool) : QuictunAcceptedTcpSocket :=
  if requireSendCallback then s.sendComplete .cancelled .disconnected else s

/-- Unregistering also drops an event that was collected and not delivered. -/
def disconnect : QuictunAcceptedTcpSocket :=
  if s.isOpen = false then s else
    let requireReceiveCallback := s.receiveMaxSize.isSome
    let requireSendCallback := s.sendData.isSome
    let s := { s with
      isOpen := false, armed := {}, fired := none, receiveMaxSize := none, sendData := none, sendRemaining := []
      receives := s.receives.cut, sends := s.sends.cut }
    if requireReceiveCallback then s.receiveComplete .cancelled (.disconnectSend requireSendCallback)
    else s.disconnectSend requireSendCallback

def resume (b : Block) (send : StatusOr Nat) : QuictunAcceptedTcpSocket :=
  match b with
  | .finished => s
  | .onSocketEventSend events => s.onSocketEventSend events send
  | .disconnectSend required => s.disconnectSend required
  | .disconnected => s

/-- One operation at a time in each direction. `ReceiveAsync()` is for a connected socket only; on one
that is not, `send()` fails with a bad descriptor. -/
def step : Ev → Option QuictunAcceptedTcpSocket
  | .receiveAsync maxSize recv =>
    if s.isOpen = true ∧ s.receives.outstanding = false ∧ 0 < maxSize then some (s.receiveAsync maxSize recv) else none
  | .sendAsync data send =>
    if s.sends.outstanding = false ∧ data ≠ [] ∧ (s.isOpen = true ∨ send = .error) then some (s.sendAsync data send)
    else none
  | .disconnect => some s.disconnect
  | .collect events =>
    if s.isOpen = true ∧ s.stack = [] ∧ s.fired = none then
      some { s with fired := some events, armed := if s.edgeTriggered then s.armed else s.armed.diff events }
    else none
  | .onSocketEvent recv send =>
    match s.stack, s.fired with
    | [], some events => some ({ s with fired := none }.onSocketEvent events recv send)
    | _, _ => none
  | .returns send =>
    match s.stack with
    | [] => none
    | b :: rest => some ({ s with stack := rest }.resume b send)

def Disconnected : Prop :=
  s.isOpen = false ∧ Stack.has Block.inDisconnect s.stack = false

end QuictunAcceptedTcpSocket

end Quictun
