import Quictun.SharedSocket

/-!
# The poll(2) event loop

`ProcessIoEvents()` polls the registrations that want something, takes what is ready out
of them into a list, and only then runs the callbacks. A callback may change the
registrations in any way, so an entry of the list has a weak pointer to its registration.
A registration here carries the number of the `make_shared` call that made it, and a weak
pointer is expired if no registration has its number.

`log` is the history, the latest note first. It is never read.
-/

namespace Quictun

open Udp (QuicSocketEventMask)

namespace Poll

abbrev SocketFd := Nat

inductive Kind
  | readable | writable | error
deriving DecidableEq

structure PollMask where
  pollIn : Bool := false
  pollOut : Bool := false
  pollErr : Bool := false
  pollHup : Bool := false
  pollNval : Bool := false
deriving DecidableEq

namespace PollMask

def union (a b : PollMask) : PollMask :=
  ⟨a.pollIn || b.pollIn, a.pollOut || b.pollOut, a.pollErr || b.pollErr, a.pollHup || b.pollHup,
    a.pollNval || b.pollNval⟩

def inter (a b : PollMask) : PollMask :=
  ⟨a.pollIn && b.pollIn, a.pollOut && b.pollOut, a.pollErr && b.pollErr, a.pollHup && b.pollHup,
    a.pollNval && b.pollNval⟩

end PollMask

def getPollMask (m : QuicSocketEventMask) : PollMask :=
  { pollIn := m.readable, pollOut := m.writable, pollErr := m.error }

def getEventMask (m : PollMask) : QuicSocketEventMask := ⟨m.pollIn, m.pollOut, m.pollErr⟩

structure Registration where
  /-- Which `make_shared` call made it. -/
  id : Nat
  events : QuicSocketEventMask
  listener : Nat
  artificiallyNotifyAtNextIteration : QuicSocketEventMask := {}
deriving DecidableEq

structure ReadyListEntry where
  fd : SocketFd
  registration : Nat
  events : QuicSocketEventMask
deriving DecidableEq

inductive Note
  | registered (r : Nat) (fd : SocketFd) (listener : Nat) (events : QuicSocketEventMask)
  | rearmed (r : Nat) (events : QuicSocketEventMask)
  | notified (r : Nat) (events : QuicSocketEventMask)
  | removed (r : Nat)
  | polled
  | collected (r : Nat) (events : QuicSocketEventMask)
  | called (r : Nat) (listener : Nat) (fd : SocketFd) (events : QuicSocketEventMask)
deriving DecidableEq

inductive Ev
  | registerSocket (fd : SocketFd) (events : QuicSocketEventMask) (listener : Nat)
  | unregisterSocket (fd : SocketFd)
  | rearmSocket (fd : SocketFd) (events : QuicSocketEventMask)
  | artificiallyNotifyEvent (fd : SocketFd) (events : QuicSocketEventMask)
  /-- The next iteration; `PollWithRetries()` returns `result` and reports `revents`. -/
  | processIoEvents (result : Int) (revents : SocketFd → PollMask)
  | runReadyCallback

end Poll

def Udp.QuicSocketEventMask.has (m : QuicSocketEventMask) : Poll.Kind → Bool
  | .readable => m.readable
  | .writable => m.writable
  | .error => m.error

open Poll

structure QuicPollEventLoop where
  registrations : List (SocketFd × Registration) := []
  hasArtificialEventsPending : Bool := false
  readyList : List ReadyListEntry := []
  made : Nat := 0
  log : List Note := []

namespace QuicPollEventLoop

def find (l : QuicPollEventLoop) (fd : SocketFd) : Option Registration :=
  (l.registrations.find? fun e => e.1 = fd).map Prod.snd

variable (l : QuicPollEventLoop)

def update (fd : SocketFd) (f : Registration → Registration) : QuicPollEventLoop :=
  { l with registrations := l.registrations.map fun e => if e.1 = fd then (e.1, f e.2) else e }

def note (n : Note) : QuicPollEventLoop := { l with log := n :: l.log }

def registerSocket (fd : SocketFd) (events : QuicSocketEventMask) (listener : Nat) :
    QuicPollEventLoop × Bool :=
  match l.find fd with
  | some _ => (l, false)
  | none =>
    ({ l.note (.registered l.made fd listener events) with
      registrations := l.registrations ++ [(fd, { id := l.made, events, listener })]
      made := l.made + 1 }, true)

def unregisterSocket (fd : SocketFd) : QuicPollEventLoop × Bool :=
  match l.find fd with
  | none => (l, false)
  | some r => ({ l.note (.removed r.id) with registrations := l.registrations.filter fun e => e.1 ≠ fd }, true)

def rearmSocket (fd : SocketFd) (events : QuicSocketEventMask) : QuicPollEventLoop × Bool :=
  match l.find fd with
  | none => (l, false)
  | some r => ((l.note (.rearmed r.id events)).update fd fun r => { r with events := r.events.union events }, true)

def artificiallyNotifyEvent (fd : SocketFd) (events : QuicSocketEventMask) :
    QuicPollEventLoop × Bool :=
  match l.find fd with
  | none => (l, false)
  | some r =>
    ({ (l.note (.notified r.id events)).update fd fun r =>
        { r with artificiallyNotifyAtNextIteration := r.artificiallyNotifyAtNextIteration.union events } with
      hasArtificialEventsPending := true }, true)

def computePollTimeout (now defaultTimeout : Int) (nextAlarm : Option Int) : Int :=
  let defaultTimeout := max defaultTimeout 0
  if l.hasArtificialEventsPending then 0
  else match nextAlarm with
    | none => defaultTimeout
    | some alarm =>
      let endTime := min (now + defaultTimeout) alarm
      if endTime < now then 0 else endTime - now

-- Linux: a hang-up is not mapped to anything
def dispatchIoEvent (fd : SocketFd) (mask : PollMask) : QuicPollEventLoop :=
  match l.find fd with
  | none => l
  | some r =>
    let mask := mask.union (getPollMask r.artificiallyNotifyAtNextIteration)
    let mask := mask.inter (getPollMask (r.events.union r.artificiallyNotifyAtNextIteration))
    let l := l.update fd fun r => { r with artificiallyNotifyAtNextIteration := {} }
    if mask = {} then l
    else
      { (l.note (.collected r.id (getEventMask mask))).update fd fun r =>
          { r with events := r.events.diff (getEventMask mask) } with
        readyList := l.readyList ++ [⟨fd, r.id, getEventMask mask⟩] }

def pollfds : List SocketFd :=
  (l.registrations.filter fun e => e.2.events ≠ {} ∨ e.2.artificiallyNotifyAtNextIteration ≠ {}).map Prod.fst

def dispatchAll (fds : List SocketFd) (revents : SocketFd → PollMask) : QuicPollEventLoop :=
  fds.foldl (fun l fd => l.dispatchIoEvent fd (revents fd)) l

-- without an early return the callbacks follow, one step each
def processIoEvents (result : Int) (revents : SocketFd → PollMask) : QuicPollEventLoop :=
  if result = 0 ∧ l.hasArtificialEventsPending = false then l.note .polled
  else { (l.note .polled).dispatchAll l.pollfds revents with hasArtificialEventsPending := false }

def runReadyCallback : Option QuicPollEventLoop :=
  match l.readyList with
  | [] => none
  | entry :: rest =>
    match l.registrations.find? fun e => e.2.id = entry.registration with
    | none => some { l with readyList := rest }
    | some e => some { l.note (.called e.2.id e.2.listener entry.fd entry.events) with readyList := rest }

/-- Alarms, callbacks and whoever runs the loop may call it; an iteration begins when the callbacks
of the last one have returned. -/
def step : Ev → Option QuicPollEventLoop
  | .registerSocket fd events listener => some (l.registerSocket fd events listener).1
  | .unregisterSocket fd => some (l.unregisterSocket fd).1
  | .rearmSocket fd events => some (l.rearmSocket fd events).1
  | .artificiallyNotifyEvent fd events => some (l.artificiallyNotifyEvent fd events).1
  | .processIoEvents result revents => if l.readyList = [] then some (l.processIoEvents result revents) else none
  | .runReadyCallback => l.runReadyCallback

end QuicPollEventLoop

end Quictun
