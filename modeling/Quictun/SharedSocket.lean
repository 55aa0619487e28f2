import Quictun.Run
import Quictun.FlatMap

/-!
# A UDP socket shared by connections

Any number of connections write through the one writer of a UDP socket. One that finds
the writer blocked is put on the socket's list of blocked writers, and `OnSocketEvent()`
gives every member of the list a turn when the socket is writable. The level-triggered
`QuicPollEventLoop` takes an event out of the registration before any callback runs, so
somebody has to arm it again: the writer when a write blocks, `OnWriteBlocked()`, and
`OnSocketEvent()` after its pass over the list.

A step is one callback. A turn may block the writer again and close any connection.
-/

namespace Quictun

namespace Udp

abbrev ConnPtr := Nat

structure QuicSocketEventMask where
  readable : Bool := false
  writable : Bool := false
  error : Bool := false
deriving DecidableEq

namespace QuicSocketEventMask

def union (a b : QuicSocketEventMask) : QuicSocketEventMask :=
  ⟨a.readable || b.readable, a.writable || b.writable, a.error || b.error⟩

def inter (a b : QuicSocketEventMask) : QuicSocketEventMask :=
  ⟨a.readable && b.readable, a.writable && b.writable, a.error && b.error⟩

def diff (a b : QuicSocketEventMask) : QuicSocketEventMask :=
  ⟨a.readable && !b.readable, a.writable && !b.writable, a.error && !b.error⟩

end QuicSocketEventMask

def kSocketEventReadable : QuicSocketEventMask := { readable := true }
def kSocketEventWritable : QuicSocketEventMask := { writable := true }
def kSocketEventError : QuicSocketEventMask := { error := true }

/-- What a driver sees of a connection. The key is what `RemoveConnection()` queues for it; the serial number tells
apart those that were at the same address one after the other. -/
structure Connection (κ : Type*) where
  key : κ
  serial : Nat
  closed : Bool := false
deriving DecidableEq

inductive Act
  /-- A packet is ready; `full` is what the kernel says if it is asked. -/
  | write (p : ConnPtr) (full : Bool)
  | close (p : ConnPtr)
deriving DecidableEq

inductive Note
  | canWrite (p : ConnPtr)
  | writeBlocked (p : ConnPtr)
deriving DecidableEq

def Note.called : Note → Option ConnPtr
  | .canWrite p => some p
  | .writeBlocked _ => none

inductive Ev (κ : Type*)
  | poll (mask : QuicSocketEventMask)
  | onSocketEvent (turn : ConnPtr → List Act)
  /-- Any other callback: a packet, an alarm, a TCP socket. -/
  | callback (acts : List Act)
  /-- A connection is constructed, in which `acts` happens, and entered into `connections_`. -/
  | create (p : ConnPtr) (key : κ) (acts : List Act)
  /-- `OpenUdpSocket()` of the client, on a socket that no connection uses. -/
  | reopen (opened : Bool)
  | collectGarbage

end Udp

open Udp

structure SharedSocket (κ : Type*) where
  edgeTriggered : Bool
  /-- The events armed in the event loop, if the socket is registered. -/
  registration : Option QuicSocketEventMask
  /-- The socket's entry in the ready list of the event loop. -/
  ready : Option QuicSocketEventMask := none
  writeBlocked : Bool := false
  writeBlockedList : List ConnPtr := []
  objects : FlatMap ConnPtr (Connection κ) := ∅
  connections : FlatMap κ ConnPtr := ∅
  pendingRemoval : List κ := []
  nextSerial : Nat := 0
  /-- A connection was called after it had been destroyed. -/
  wild : Bool := false
  notes : List Note := []
  reported : List Nat := []
  erased : List Nat := []

namespace SharedSocket

section
variable {κ : Type*}

/-! ## The event loop -/

section
variable (s : SharedSocket κ)

def rearmSocket (events : QuicSocketEventMask) : SharedSocket κ :=
  { s with registration := s.registration.map (·.union events) }

def rearmIfLevel (events : QuicSocketEventMask) : SharedSocket κ :=
  if s.edgeTriggered then s else s.rearmSocket events

-- `DispatchIoEvent()`: what is not armed is not delivered, and what is delivered is no longer armed
def poll (mask : QuicSocketEventMask) : Option (SharedSocket κ) :=
  match s.registration, s.ready with
  | some events, none =>
    let m := mask.inter events
    if m = {} then some s
    else some { s with ready := some m, registration := some (if s.edgeTriggered then events else events.diff m) }
  | _, _ => none

/-! ## The list of blocked writers -/

variable (p : ConnPtr)

-- `Add()` refuses a connection whose writer is not blocked
def add : SharedSocket κ :=
  if s.writeBlocked = true ∧ p ∉ s.writeBlockedList then { s with writeBlockedList := s.writeBlockedList ++ [p] } else s

def remove : SharedSocket κ :=
  { s with writeBlockedList := s.writeBlockedList.filter (· != p) }

def onWriteBlocked : SharedSocket κ :=
  ({ s with notes := s.notes ++ [Note.writeBlocked p] }.add p).rearmIfLevel kSocketEventWritable

-- a blocked writer is not asked; one that gets blocked arms the event before the connection is told
def write (full : Bool) : SharedSocket κ :=
  if s.writeBlocked then s.onWriteBlocked p
  else if full then ({ s with writeBlocked := true }.rearmIfLevel kSocketEventWritable).onWriteBlocked p
  else s

/-! ## Connections -/

def removeConnection (c : Connection κ) : SharedSocket κ :=
  { s.remove p with pendingRemoval := s.pendingRemoval ++ [c.key], reported := s.reported ++ [c.serial] }

def connected : Option (Connection κ) :=
  (s.objects.lookup p).bind fun c => if c.closed then none else some c

-- a connection that is closed neither writes nor closes again
def act : Act → SharedSocket κ
  | .write p full =>
    match s.connected p with
    | none => s
    | some _ => s.write p full
  | .close p =>
    match s.connected p with
    | none => s
    | some c => { s with objects := s.objects.insert p { c with closed := true } }.removeConnection p c

def acts (as : List Act) : SharedSocket κ := as.foldl act s

def onBlockedWriterCanWrite (as : List Act) : SharedSocket κ :=
  let s := { s with writeBlocked := false, notes := s.notes ++ [Note.canWrite p] }
  match s.objects.lookup p with
  | none => { s with wild := true }
  | some c => if c.closed then s else s.acts as

-- the list is moved to a temporary one first, so that the members can come back
def onWriterUnblocked (turn : ConnPtr → List Act) : SharedSocket κ :=
  s.writeBlockedList.foldl (fun s p => s.onBlockedWriterCanWrite p (turn p)) { s with writeBlockedList := [] }

def onWritable (turn : ConnPtr → List Act) : SharedSocket κ :=
  let s := { s with writeBlocked := false }.onWriterUnblocked turn
  if s.writeBlockedList = [] then s else s.rearmIfLevel kSocketEventWritable

def onSocketEvent (events : QuicSocketEventMask) (turn : ConnPtr → List Act) : SharedSocket κ :=
  let s := if events.error then s.rearmIfLevel kSocketEventError else s
  let s := if events.writable then s.onWritable turn else s
  if events.readable then s.rearmIfLevel kSocketEventReadable else s

def construct (key : κ) : SharedSocket κ :=
  { s with objects := s.objects.insert p { key, serial := s.nextSerial }, nextSerial := s.nextSerial + 1 }

end

variable [DecidableEq κ]

variable (s : SharedSocket κ)

def create (p : ConnPtr) (key : κ) (as : List Act) : SharedSocket κ :=
  let s := (s.construct p key).acts as
  { s with connections := s.connections.emplace key p }

def reopen (opened : Bool) : SharedSocket κ :=
  { s with registration := if opened then some ⟨true, true, true⟩ else none, ready := none, writeBlocked := false }

def collect (key : κ) : SharedSocket κ :=
  match s.connections.lookup key with
  | none => s
  | some p =>
    { s.remove p with
      connections := s.connections.erase key, objects := s.objects.erase p,
      erased := s.erased ++ ((s.objects.lookup p).map (·.serial)).toList }

def collectGarbage : SharedSocket κ :=
  { s.pendingRemoval.foldl collect s with pendingRemoval := [] }

/-- The allocator returns no address in use, and a connection is created for a key that is not in
`connections_`, on a socket that is open. -/
def step : Ev κ → Option (SharedSocket κ)
  | .poll mask => s.poll mask
  | .onSocketEvent turn => s.ready.map fun m => { s with ready := none }.onSocketEvent m turn
  | .callback as => some (s.acts as)
  | .create p key as =>
    if p ∉ s.objects ∧ key ∉ s.connections ∧ s.registration.isSome then some (s.create p key as) else none
  | .reopen opened => if s.objects.entries = [] then some (s.reopen opened) else none
  | .collectGarbage => some s.collectGarbage

def registered (edgeTriggered : Bool) : SharedSocket κ :=
  { edgeTriggered, registration := some ⟨true, true, true⟩ }

end

/-! ## What a call leaves alone -/

section
variable {κ : Type*} {s : SharedSocket κ} {p q : ConnPtr} {c d : Connection κ}

theorem rearmIfLevel_eq (s : SharedSocket κ) (m : QuicSocketEventMask) : s.rearmIfLevel m =
    { s with registration := if s.edgeTriggered then s.registration else s.registration.map (·.union m) } := by
  unfold rearmIfLevel rearmSocket
  split <;> rfl

theorem add_eq (s : SharedSocket κ) (p : ConnPtr) : s.add p = { s with
    writeBlockedList := if s.writeBlocked = true ∧ p ∉ s.writeBlockedList then s.writeBlockedList ++ [p]
      else s.writeBlockedList } := by
  unfold add
  split <;> rfl

theorem connected_eq_some : s.connected p = some c ↔ s.objects.lookup p = some c ∧ c.closed = false := by
  unfold connected
  rw [Option.bind_eq_some_iff]
  constructor
  · rintro ⟨c', hc, h⟩
    split at h
    · cases h
    next hn =>
      cases h
      exact ⟨hc, by simpa using hn⟩
  · rintro ⟨hc, hn⟩
    exact ⟨c, hc, by rw [hn]; rfl⟩

theorem mem_remove : q ∈ (s.remove p).writeBlockedList ↔ q ∈ s.writeBlockedList ∧ q ≠ p := by
  simp [remove]

theorem onSocketEvent_keeps {P : SharedSocket κ → Prop} {turn : ConnPtr → List Act}
    (hr : ∀ s m, P s → P (s.rearmIfLevel m)) (hw : ∀ s, P s → P (s.onWritable turn)) (m : QuicSocketEventMask)
    (h : P s) : P (s.onSocketEvent m turn) := by
  have hif : ∀ (b : Bool) (s t : SharedSocket κ), P s → P t → P (if b then t else s) := by
    intro b s t hs ht
    cases b
    · exact hs
    · exact ht
  have h1 := hif m.error s _ h (hr s kSocketEventError h)
  have h2 := hif m.writable _ _ h1 (hw _ h1)
  exact hif m.readable _ _ h2 (hr _ kSocketEventReadable h2)

/-- What the bookkeeping of the blocked writers does not touch and the close of a connection keeps, so that
every callback keeps it. -/
structure Stable (P : SharedSocket κ → Prop) : Prop where
  writers : ∀ {s r} blocked ps notes wild, r.isSome = s.registration.isSome → P s →
    P { s with registration := r, writeBlocked := blocked, writeBlockedList := ps, notes := notes, wild := wild }
  close : ∀ {s p c}, s.connected p = some c → P s →
    P ({ s with objects := s.objects.insert p { c with closed := true } }.removeConnection p c)

section
variable {P : SharedSocket κ → Prop} (hP : Stable P)
include hP

theorem Stable.rearmIfLevel (m : QuicSocketEventMask) (h : P s) : P (s.rearmIfLevel m) := by
  rw [rearmIfLevel_eq]
  refine hP.writers _ _ _ _ ?_ h
  split
  · rfl
  · exact Option.isSome_map

theorem Stable.onWriteBlocked (h : P s) : P (s.onWriteBlocked p) := by
  unfold SharedSocket.onWriteBlocked
  rw [add_eq]
  exact hP.rearmIfLevel _ (hP.writers (s := s) _ _ _ _ rfl h)

theorem Stable.act (a : Act) (h : P s) : P (s.act a) := by
  cases a with
  | write p full =>
    simp only [SharedSocket.act, write]
    split
    · exact h
    · split
      · exact hP.onWriteBlocked h
      · split
        · exact hP.onWriteBlocked (hP.rearmIfLevel _ (hP.writers true _ _ _ rfl h))
        · exact h
  | close p =>
    simp only [SharedSocket.act]
    split
    · exact h
    next hp => exact hP.close hp h

theorem Stable.acts : ∀ (as : List Act) {s : SharedSocket κ}, P s → P (s.acts as)
  | [], _, h => h
  | a :: as, _, h => Stable.acts as (hP.act a h)

theorem Stable.onBlockedWriterCanWrite (as : List Act) (h : P s) : P (s.onBlockedWriterCanWrite p as) := by
  unfold SharedSocket.onBlockedWriterCanWrite
  dsimp only
  split
  · exact hP.writers false _ _ true rfl h
  · split
    · exact hP.writers false _ _ _ rfl h
    · exact hP.acts as (hP.writers false _ _ _ rfl h)

theorem Stable.turns (turn : ConnPtr → List Act) : ∀ (ps : List ConnPtr) {s : SharedSocket κ}, P s →
    P (ps.foldl (fun s p => s.onBlockedWriterCanWrite p (turn p)) s)
  | [], _, h => h
  | _ :: ps, _, h => Stable.turns turn ps (hP.onBlockedWriterCanWrite _ h)

theorem Stable.onSocketEvent (m : QuicSocketEventMask) (turn : ConnPtr → List Act) (h : P s) :
    P (s.onSocketEvent m turn) := by
  refine onSocketEvent_keeps (fun _ => hP.rearmIfLevel) (fun t h => ?_) m h
  have ht := hP.turns turn t.writeBlockedList (hP.writers false [] t.notes t.wild rfl h)
  unfold onWritable
  dsimp only
  split
  · exact ht
  · exact hP.rearmIfLevel _ ht

end

end

end SharedSocket

end Quictun
