import Mathlib.Data.List.Perm.Basic
import Mathlib.Data.List.Nodup
import Quictun.Run
import Quictun.Stack

/-!
# Owners of tunnels

What `QuictunClientConnection` and `QuictunServerConnection` have in common: a map of the
tunnels that run, a list of the closed ones that wait for the garbage alarm, and a `Close()`
that ends all of them. `ω` is the type of the blocks that only one of the two has, and
`todo` is the call stack, cut where a stream is called: a write that fails there takes the
connection down before the call returns.

Of a tunnel only its end is modelled: `run id` is any of its member functions but `Close()`.
It may write to its stream and close itself. `admitted`, `moved` and `disconnects` are logs.
-/

namespace Quictun

open List Option

namespace Owner

/-- A TCP socket. A connect that fails closes the descriptor before anybody is told. -/
inductive Socket
  | connecting (fd : Nat)
  | connected (fd : Nat)
  | failed
  | disconnected
deriving DecidableEq

def Socket.descriptor : Socket → Option Nat
  | .connecting fd | .connected fd => some fd
  | .failed | .disconnected => none

def Socket.disconnect : Socket → Socket
  | .connecting _ | .connected _ => .disconnected
  | s => s

/-- `StreamTcp` or `StreamTarget`: a tunnel and its socket. -/
structure Entry where
  id : Nat
  socket : Socket
  tunnelClosed : Bool := false
  hasSocket : Bool := true
  /-- `socket_disconnected_` of the tunnel. -/
  tunnelDisconnected : Bool := false
  /-- `tcp_socket_disconnected` or `target_socket_disconnected` of the entry. -/
  ownerDisconnected : Bool := false
deriving DecidableEq

def Entry.descriptor (t : Entry) : Option Nat := t.socket.descriptor

inductive Op
  | run (id : Nat)
  | stopReading (id : Nat)
  | closeAfterStopReading (id : Nat) (resetStream : Bool)
  | closeAfterOnClosed (id : Nat) (resetStream : Bool)
  | reset (id : Nat)
  | onStreamGone (id : Nat)
  | close
  | closeTunnels
  | closeTunnel (id : Nat)
  | clear
deriving DecidableEq

/-- How a call goes. `gone` are the streams the session closes if the connection goes down. -/
structure Answer where
  writeFails : Bool := false
  gone : List Nat := []
  finReached : Bool := false
  closes : Option Bool := none
deriving DecidableEq

inductive Ev
  | tunnelEvent (id : Nat)
  | streamGone (id : Nat)
  | connectionClosed (gone : List Nat)
  | close
  | collectStreamGarbage
deriving DecidableEq

end Owner

open Owner

structure Owner (ω : Type) where
  closed : Bool := false
  connected : Bool := true
  entries : List Owner.Entry := []
  closedEntries : List Owner.Entry := []
  /-- The streams whose delegate is their tunnel. -/
  delegates : List Nat := []
  garbageAlarm : Bool := false
  todo : List (ω ⊕ Owner.Op) := []
  admitted : List Nat := []
  moved : List Owner.Entry := []
  disconnects : List Owner.Entry := []
deriving DecidableEq

namespace Owner

open Stack

variable {ω : Type}

section
variable (o : Owner ω)

def push (ops : List Op) : Owner ω := { o with todo := ops.map Sum.inr ++ o.todo }

/-- The owner that runs a block taken off the stack. -/
abbrev pop (rest : List (ω ⊕ Op)) : Owner ω := { o with todo := rest }

def pushOwn (ops : List ω) : Owner ω := { o with todo := ops.map Sum.inl ++ o.todo }

def own : List ω := o.todo.filterMap Sum.getLeft?

def find (o : Owner ω) (id : Nat) : Option Entry := o.entries.find? fun t => t.id == id

def put (t t' : Entry) : Owner ω := { o with entries := t' :: o.entries.erase t }

variable (t : Entry)

def addEntry : Owner ω :=
  { o with entries := t :: o.entries, delegates := t.id :: o.delegates, admitted := o.admitted ++ [t.id] }

/-! ## The connection goes down -/

def connectionClosed (gone : List Nat) : Owner ω :=
  { o with connected := false }.push (gone.map Op.onStreamGone ++ [Op.close])

def afterWrite (a : Answer) : Owner ω :=
  if a.writeFails && o.connected then o.connectionClosed a.gone else o

/-! ## `QuictunTunnel::Close()` -/

def beginClose (resetStream : Bool) : Owner ω :=
  (o.put t { t with tunnelClosed := true }).push [.stopReading t.id, .closeAfterStopReading t.id resetStream]

/-- A caller that asks `closed()` first. A tunnel that is not in the map any more is closed. -/
def closeTunnel (id : Nat) (resetStream : Bool) : Owner ω :=
  match o.find id with
  | none => o
  | some t => if t.tunnelClosed then o else o.beginClose t resetStream

/-- `FlushBufferedFrames()` gives credit back, which may send a `WINDOW_UPDATE`. At the end of the stream the session
drops its delegate, which is closed already. -/
def stopReading (a : Answer) (id : Nat) : Owner ω :=
  { o with delegates := if a.finReached then o.delegates.erase id else o.delegates }.afterWrite a

/-- The tunnel disconnects its socket. The pending operations are cancelled, and their callbacks find the tunnel
closed. -/
def disconnectSocket : Owner ω × Entry :=
  if t.hasSocket && !t.tunnelDisconnected then
    ({ o with disconnects := o.disconnects ++ [t] },
      { t with tunnelDisconnected := true, socket := t.socket.disconnect })
  else (o, t)

def disconnectStreamTarget : Owner ω × Entry :=
  if t.ownerDisconnected then (o, t)
  else ({ o with disconnects := o.disconnects ++ [t] },
    { t with ownerDisconnected := true, socket := t.socket.disconnect })

/-- The owner's callback. The client's does not ask `HasSocket()`: there the answer is always yes. -/
def onClosed : Owner ω × Entry :=
  if t.hasSocket then (o, { t with ownerDisconnected := true }) else o.disconnectStreamTarget t

def retire (t t' : Entry) : Owner ω :=
  { o with
    entries := o.entries.erase t
    delegates := o.delegates.filter (· != t.id)
    closedEntries := o.closedEntries ++ [t']
    moved := o.moved ++ [t']
    garbageAlarm := true }

/-- From `StopReading()` to the end of the owner's callback. If the tunnel is gone by now (`none`), this runs on a
destroyed object: the behaviour is undefined and the model stops there. -/
def closeAfterStopReading (id : Nat) (resetStream : Bool) : Owner ω :=
  match o.find id with
  | none => o
  | some t =>
    let d := o.disconnectSocket t
    let n := d.1.onClosed d.2
    (n.1.retire t n.2).push [.closeAfterOnClosed id resetStream]

/-! ## The blocks -/

/-- Once its tunnel is closed a member function returns; it goes on after a write, and after a `Close()`. -/
def run (o : Owner ω) (a : Answer) (id : Nat) : Owner ω :=
  match o.find id with
  | none => o
  | some t =>
    if t.tunnelClosed then o
    else match a.closes with
      | some resetStream => (o.push [.run id]).beginClose t resetStream
      | none => if a.writeFails && o.connected then (o.push [.run id]).connectionClosed a.gone else o

def onStreamGone (id : Nat) : Owner ω :=
  if id ∈ o.delegates then { o with delegates := o.delegates.erase id }.closeTunnel id false else o

/-- `Close()` up to the snapshot of the tunnels. `OnConnectionClosed()` calls it again, and finds it closed. -/
def close (a : Answer) : Owner ω :=
  if o.closed then o
  else
    let o := { o with closed := true }.push [.closeTunnels, .clear]
    if o.connected then o.connectionClosed a.gone else o

def clear : Owner ω := { o with entries := [], garbageAlarm := false }

def exec (a : Answer) : Op → Owner ω
  | .run id => o.run a id
  | .stopReading id => o.stopReading a id
  | .closeAfterStopReading id resetStream => o.closeAfterStopReading id resetStream
  | .closeAfterOnClosed id resetStream => if resetStream && o.connected then o.push [.reset id] else o
  | .reset _ => o.afterWrite a
  | .onStreamGone id => o.onStreamGone id
  | .close => o.close a
  | .closeTunnels => o.push (o.entries.map fun t => .closeTunnel t.id)
  | .closeTunnel id => o.closeTunnel id false
  | .clear => o.clear

def deliver : Ev → Option (Owner ω)
  | .tunnelEvent id => if (o.find id).isSome then some (o.push [.run id]) else none
  | .streamGone id => some (o.push [.onStreamGone id])
  | .connectionClosed gone => if o.connected then some (o.connectionClosed gone) else none
  | .close => some (o.push [.close])
  | .collectStreamGarbage => if o.garbageAlarm then some { o with closedEntries := [], garbageAlarm := false } else none

def stopReadingFails (a : Answer) : Bool :=
  match o.todo with
  | .inr (.stopReading _) :: _ => a.writeFails && o.connected
  | _ => false

end

/-! ## What holds throughout -/

section
variable {ω : Type}

def closesAfter (id : Nat) : ω ⊕ Op → Bool
  | .inr (.closeAfterStopReading j _) => j == id
  | _ => false

def stops (id : Nat) : ω ⊕ Op → Bool
  | .inr (.stopReading j) => j == id
  | _ => false

def closes (id : Nat) : ω ⊕ Op → Bool
  | .inr (.closeTunnel j) | .inr (.closeAfterStopReading j _) => j == id
  | .inr .closeTunnels => true
  | _ => false

def clears : ω ⊕ Op → Bool
  | .inr .clear => true
  | _ => false

def Op.tunnel? : Op → Option Nat
  | .run id | .stopReading id | .closeAfterStopReading id _ | .closeAfterOnClosed id _ | .reset id
  | .closeTunnel id => some id
  | _ => none

structure Entry.Ready (t : Entry) : Prop where
  hasSocket : t.hasSocket = true
  connected : t.tunnelDisconnected = false → t.socket.descriptor.isSome = true
  failed : t.tunnelDisconnected = true → t.socket = .failed

def disconnectCount (o : Owner ω) (id : Nat) : Nat := (o.disconnects.map Entry.id).count id

def Ended (o : Owner ω) (t : Entry) : Prop :=
  t.tunnelClosed = true ∧
    ((t.socket = .disconnected ∧ o.disconnectCount t.id = 1) ∨ (t.socket = .failed ∧ o.disconnectCount t.id = 0))

structure Core (o : Owner ω) : Prop where
  ids : (o.entries.map Entry.id ++ o.moved.map Entry.id).Perm o.admitted
  nodup : o.admitted.Nodup
  delegates : ∀ id ∈ o.delegates, id ∈ o.entries.map Entry.id
  ready : ∀ t ∈ o.entries, t.Ready
  untouched : ∀ t ∈ o.entries, o.disconnectCount t.id = 0
  ended : ∀ t ∈ o.moved, o.Ended t
  kept : o.closedEntries ⊆ o.moved
  logged : ∀ d ∈ o.disconnects, d.id ∈ o.admitted

/-- The stack over the map `es` and the list `cs` of closed entries. `Close()` of a tunnel is not interrupted
between `StopReading()` and the owner's callback. -/
structure Stacked (es cs : List Entry) (todo : List (ω ⊕ Op)) : Prop where
  window : ∀ id, Above (closesAfter id) (stops id) todo
  closing : ∀ t ∈ es, t.tunnelClosed = true → has (closesAfter t.id) todo = true
  entry : ∀ id, has (closesAfter id) todo = true → ∃ t ∈ es, t.id = id ∧ t.tunnelClosed = true
  refs : ∀ op id, .inr op ∈ todo → op.tunnel? = some id → id ∈ es.map Entry.id ∨ id ∈ cs.map Entry.id

def Swept (es : List Entry) (todo : List (ω ⊕ Op)) : Prop := ∀ t ∈ es, reaches (closes t.id) clears todo = true

structure Inv (o : Owner ω) : Prop extends Core o where
  stacked : Stacked o.entries o.closedEntries o.todo
  swept : o.closed = true → Swept o.entries o.todo
  clearing : has clears o.todo = true → o.closed = true

end

/-! ## The stack -/

section
variable {ω : Type} {es cs : List Entry} {b : ω ⊕ Op} {todo rest : List (ω ⊕ Op)}

def Calm (todo : List (ω ⊕ Op)) : Prop := ∀ id, has (closesAfter id) todo = false

theorem Stacked.calm (h : Stacked es cs (b :: rest)) (hb : ∀ id, stops id b = false) : Calm rest := fun id =>
  (h.window id).not_has (hb id)

theorem Stacked.open_of_calm (h : Stacked es cs todo) (hc : Calm todo) {t : Entry} (ht : t ∈ es) :
    t.tunnelClosed = false := by
  by_contra hn
  rw [Bool.not_eq_false] at hn
  cases (hc t.id).symm.trans (h.closing t ht hn)

theorem Stacked.pop (h : Stacked es cs (b :: rest)) (hb : ∀ id, closesAfter id b = false) : Stacked es cs rest where
  window id := (above_cons.1 (h.window id)).2
  closing t ht hc := by
    have := h.closing t ht hc
    rwa [has_cons, hb, Bool.false_or] at this
  entry id hi := h.entry id (by rw [has_cons, hi, Bool.or_true])
  refs op id ho := h.refs op id (mem_cons_of_mem _ ho)

theorem Stacked.push (h : Stacked es cs rest) (hc : Calm rest) (hops : ∀ id, has (closesAfter id) todo = false)
    (hr : ∀ op id, .inr op ∈ todo → op.tunnel? = some id → id ∈ es.map Entry.id ∨ id ∈ cs.map Entry.id) :
    Stacked es cs (todo ++ rest) := by
  have hc' : Calm (todo ++ rest) := fun id => by rw [has_append, hops, hc, Bool.or_self]
  refine ⟨fun id => ?_, fun t ht hn => ?_, fun id hi => ?_, fun op id ho => ?_⟩
  · exact above_of_not_has (hc' id)
  · cases (h.open_of_calm hc ht).symm.trans hn
  · cases (hc' id).symm.trans hi
  · exact (mem_append.1 ho).elim (hr op id) (h.refs op id)

end

/-! ## The map -/

section
variable {ω : Type} {o : Owner ω} {t t' : Entry} {id : Nat}

theorem mem_of_find (h : o.find id = some t) : t ∈ o.entries ∧ t.id = id :=
  ⟨mem_of_find?_eq_some h, by simpa using find?_some h⟩

theorem not_mem_of_find (h : o.find id = none) : id ∉ o.entries.map Entry.id := by
  intro hm
  obtain ⟨t, ht, rfl⟩ := mem_map.1 hm
  simpa using find?_eq_none.1 h t ht

theorem mem_ids_put {es : List Entry} (ht : t ∈ es) (hi : t'.id = t.id) (i : Nat) :
    i ∈ es.map Entry.id ↔ i ∈ (t' :: es.erase t).map Entry.id := by
  rw [((perm_cons_erase ht).map Entry.id).mem_iff, map_cons, map_cons, hi]

theorem mem_ids_retire {es cs : List Entry} {i : Nat} (ht : t ∈ es) (hi : t'.id = t.id)
    (h : i ∈ es.map Entry.id ∨ i ∈ cs.map Entry.id) :
    i ∈ (es.erase t).map Entry.id ∨ i ∈ (cs ++ [t']).map Entry.id := by
  rw [mem_ids_put ht hi, map_cons, mem_cons] at h
  rw [map_append, mem_append]
  rcases h with (rfl | h) | h
  · exact .inr (.inr (mem_singleton_self _))
  · exact .inl h
  · exact .inr (.inl h)

section
variable (h : Core o) (ht : t ∈ o.entries)
include h ht

theorem Core.split :
    (t.id :: ((o.entries.erase t).map Entry.id ++ o.moved.map Entry.id)).Perm o.admitted :=
  (((perm_cons_erase ht).map Entry.id).symm.append_right _).trans h.ids

theorem Core.mem_admitted : t.id ∈ o.admitted :=
  (h.split ht).mem_iff.1 mem_cons_self

theorem Core.split_nodup :
    t.id ∉ (o.entries.erase t).map Entry.id ∧ t.id ∉ o.moved.map Entry.id := by
  have hn := (nodup_cons.1 ((h.split ht).nodup_iff.2 h.nodup)).1
  rwa [mem_append, not_or] at hn

theorem Core.eq_of_id (ht' : t' ∈ o.entries) (hi : t.id = t'.id) : t = t' := by
  by_contra hne
  exact (h.split_nodup ht').1 (hi ▸ mem_map_of_mem ((mem_erase_of_ne hne).2 ht))

theorem Core.find_of_mem : o.find t.id = some t := by
  cases hf : o.find t.id with
  | none => exact absurd (mem_map_of_mem ht) (not_mem_of_find hf)
  | some s => rw [h.eq_of_id (mem_of_find hf).1 ht (mem_of_find hf).2]

theorem Core.put (hi : t'.id = t.id) (hr : t'.Ready) : Core (o.put t t') :=
  { h with
    ids := by
      rw [Owner.put, map_cons, hi]
      exact h.split ht
    delegates := fun i hd => (mem_ids_put ht hi i).1 (h.delegates i hd)
    ready := fun s hs => (mem_cons.1 hs).elim (fun e => e ▸ hr) fun hs => h.ready s (mem_of_mem_erase hs)
    untouched := fun s hs => (mem_cons.1 hs).elim
      (fun e => by rw [e, hi]; exact h.untouched t ht) fun hs => h.untouched s (mem_of_mem_erase hs) }

end

/-! ## `Close()` of a tunnel -/

variable {rest : List (ω ⊕ Op)}

theorem Stacked.beginClose {es cs : List Entry} (h : Stacked es cs rest) (hc : Calm rest) (ht : t ∈ es) (r : Bool) :
    Stacked ({ t with tunnelClosed := true } :: es.erase t) cs
      (.inr (.stopReading t.id) :: .inr (.closeAfterStopReading t.id r) :: rest) := by
  refine ⟨fun id => ?_, fun s hs hn => ?_, fun id hi => ?_, fun op id ho hi => ?_⟩
  · refine above_cons.2 ⟨fun hp => ?_, above_cons.2 ⟨fun hp => ?_, h.window id⟩⟩
    · simpa [closesAfter, stops, hc id] using hp
    · cases (hc id).symm.trans hp
  · rcases mem_cons.1 hs with rfl | hs
    · simp [closesAfter]
    · cases (h.open_of_calm hc (mem_of_mem_erase hs)).symm.trans hn
  · refine ⟨_, mem_cons_self, ?_, rfl⟩
    simpa [closesAfter, hc id] using hi
  · refine Or.imp_left (mem_ids_put ht (by rfl) id).1 ?_
    simp only [mem_cons, Sum.inr.injEq] at ho
    rcases ho with rfl | rfl | ho
    · exact .inl (some.inj hi ▸ mem_map_of_mem ht)
    · exact .inl (some.inj hi ▸ mem_map_of_mem ht)
    · exact h.refs op id ho hi

/-- The state when a block has been taken off the stack, if no tunnel is in the middle of its `Close()`. The tunnels
`p` may have lost the block that was to close them. -/
structure Popped (p : Nat → Prop) (o : Owner ω) : Prop extends Core o where
  stacked : Stacked o.entries o.closedEntries o.todo
  calm : Calm o.todo
  swept : o.closed = true → ∀ t ∈ o.entries, ¬ p t.id → reaches (closes t.id) clears o.todo = true
  clearing : has clears o.todo = true → o.closed = true

variable {p : Nat → Prop}

theorem Inv.popped {b : ω ⊕ Op} (h : Inv o) (ht : o.todo = b :: rest)
    (hp : ∀ id, ¬ p id → closes id b = false) (hs : ∀ id, stops id b = false) (ha : ∀ id, closesAfter id b = false) :
    Popped p (o.pop rest) := by
  have hst : Stacked o.entries o.closedEntries (b :: rest) := ht ▸ h.stacked
  refine { h with stacked := hst.pop ha, calm := hst.calm hs, swept := fun hc t hm hn => ?_, clearing := fun hc => ?_ }
  · have hw := h.swept hc t hm
    rw [ht] at hw
    exact reaches_tail hw (hp t.id hn)
  · exact h.clearing (by rw [ht, has_cons, hc, Bool.or_true])

theorem Inv.popQuiet {b : ω ⊕ Op} (h : Inv o) (ht : o.todo = b :: rest)
    (hb : ∀ id, (closes id b || stops id b || closesAfter id b) = false) : Popped p (o.pop rest) := by
  simp only [Bool.or_eq_false_iff] at hb
  exact h.popped ht (fun i _ => (hb i).1.1) (fun i => (hb i).1.2) fun i => (hb i).2

theorem Popped.inv (h : Popped p o) (hp : o.closed = true → ∀ t ∈ o.entries, ¬ p t.id) : Inv o :=
  { h with swept := fun hc t ht => h.swept hc t ht (hp hc t ht) }

theorem Popped.whole (h : Popped (fun _ => False) o) : Inv o := h.inv fun _ _ _ hn => hn

theorem Popped.weaken (h : Popped (fun _ => False) o) : Popped p o :=
  { h with swept := fun hc t ht _ => h.swept hc t ht id }

theorem Popped.pushBlocks {p : Nat → Prop} (h : Popped p o) {bs : List (ω ⊕ Op)}
    (ha : ∀ id, has (closesAfter id) bs = false)
    (hc : has clears bs = false)
    (hr : ∀ op id, .inr op ∈ bs → op.tunnel? = some id → id ∈ o.entries.map Entry.id ∨
      id ∈ o.closedEntries.map Entry.id) :
    Popped p (o.pop (bs ++ o.todo)) :=
  { h with
    stacked := h.stacked.push h.calm ha hr
    calm := fun id => by rw [has_append, ha, h.calm, Bool.or_self]
    swept := fun hcl t ht hn => reaches_append hc (h.swept hcl t ht hn)
    clearing := fun hcl => h.clearing (by rwa [has_append, hc, Bool.false_or] at hcl) }

theorem Popped.push {p : Nat → Prop} (h : Popped p o) {ops : List Op}
    (ha : ∀ id, has (closesAfter id) (ops.map (Sum.inr : Op → ω ⊕ Op)) = false)
    (hc : has clears (ops.map (Sum.inr : Op → ω ⊕ Op)) = false)
    (hr : ∀ op ∈ ops, ∀ id, op.tunnel? = some id → id ∈ o.entries.map Entry.id ∨ id ∈ o.closedEntries.map Entry.id) :
    Popped p (o.push ops) :=
  h.pushBlocks ha hc fun op id ho => hr op (by simpa using ho) id

theorem Popped.pushOp (h : Popped p o) (op : Op)
    (ha : ∀ id, closesAfter id (.inr op : ω ⊕ Op) = false) (hc : clears (.inr op : ω ⊕ Op) = false)
    (hr : ∀ id, op.tunnel? = some id → id ∈ o.entries.map Entry.id ∨ id ∈ o.closedEntries.map Entry.id) :
    Popped p (o.push [op]) := by
  refine h.push (fun id => ?_) ?_ fun op' ho => mem_singleton.1 ho ▸ hr
  · rw [map_singleton, has_cons, ha, has_nil, Bool.or_self]
  · rw [map_singleton, has_cons, hc, has_nil, Bool.or_self]

theorem Popped.pushRun (h : Popped p o) (hm : id ∈ o.entries.map Entry.id) : Popped p (o.push [.run id]) :=
  h.pushOp (.run id) (fun _ => rfl) rfl fun _ hi => .inl (some.inj hi ▸ hm)

theorem Popped.pushOwn {p : Nat → Prop} (h : Popped p o) (ops : List ω) : Popped p (o.pushOwn ops) :=
  h.pushBlocks (fun _ => by simp [has, closesAfter]) (by simp [has, clears]) fun op id ho => by simp at ho

theorem Popped.put {p : Nat → Prop} (h : Popped p o) (ht : t ∈ o.entries) (hi : t'.id = t.id)
    (hc : t'.tunnelClosed = false) (hr : t'.Ready) : Popped p (o.put t t') := by
  refine { h.toCore.put ht hi hr with
    stacked := ⟨h.stacked.window, fun s hs hn => ?_, fun i hn => ?_, fun op i ho hn => ?_⟩
    calm := h.calm, swept := fun hcl s hs hn => ?_, clearing := h.clearing }
  · rcases mem_cons.1 hs with rfl | hs
    · cases hc.symm.trans hn
    · exact h.stacked.closing s (mem_of_mem_erase hs) hn
  · cases (h.calm i).symm.trans hn
  · exact (h.stacked.refs op i ho hn).imp_left (mem_ids_put ht hi i).1
  · rcases mem_cons.1 hs with rfl | hs
    · rw [hi] at hn ⊢
      exact h.swept hcl t ht hn
    · exact h.swept hcl s (mem_of_mem_erase hs) hn

theorem Popped.beginClose (h : Popped (· = t.id) o) (ht : t ∈ o.entries) (r : Bool) : Inv (o.beginClose t r) :=
  have hcore : Core (o.put t { t with tunnelClosed := true }) := h.toCore.put ht rfl { h.ready t ht with }
  { hcore with
    stacked := h.stacked.beginClose h.calm ht r
    swept := fun hc s hs => by
      by_cases hi : s.id = t.id
      · simp [Owner.beginClose, Owner.push, closes, clears, hi]
      · rcases mem_cons.1 hs with rfl | hs
        · exact absurd rfl hi
        · have hw := h.swept hc s (mem_of_mem_erase hs) hi
          simp [Owner.beginClose, Owner.push, Owner.put, clears, hw]
    clearing := h.clearing }

theorem Popped.closeTunnel (h : Popped (· = id) o) (r : Bool) : Inv (o.closeTunnel id r) := by
  unfold Owner.closeTunnel
  cases hf : o.find id with
  | none => exact h.inv fun _ t ht hi => not_mem_of_find hf (hi ▸ mem_map_of_mem ht)
  | some t =>
    obtain ⟨ht, rfl⟩ := mem_of_find hf
    dsimp only
    rw [h.stacked.open_of_calm h.calm ht, if_neg Bool.false_ne_true]
    exact h.beginClose ht r

/-! ## The blocks keep the invariant -/

theorem Popped.connectionClosed {p : Nat → Prop} (h : Popped p o) (gone : List Nat) :
    Popped p (o.connectionClosed gone) := by
  have h' : Popped p { o with connected := false } := { h with }
  refine h'.push (fun id => ?_) ?_ fun op ho i hi => ?_
  · simp [has, closesAfter]
  · simp [has, clears]
  · rcases mem_append.1 ho with ho | ho
    · obtain ⟨j, -, rfl⟩ := mem_map.1 ho
      cases hi
    · obtain rfl := mem_singleton.1 ho
      cases hi

theorem Popped.afterWrite {p : Nat → Prop} (h : Popped p o) (a : Answer) : Popped p (o.afterWrite a) := by
  unfold Owner.afterWrite
  split
  · exact h.connectionClosed a.gone
  · exact h

theorem Popped.run (h : Popped (fun _ => False) o) (a : Answer) : Inv (o.run a id) := by
  have hi : Inv o := h.whole
  unfold Owner.run
  cases hf : o.find id with
  | none => exact hi
  | some t =>
    obtain ⟨ht, rfl⟩ := mem_of_find hf
    have hp : Popped (fun _ => False) (o.push [.run t.id]) := h.pushRun (mem_map_of_mem ht)
    dsimp only
    rw [h.stacked.open_of_calm h.calm ht, if_neg Bool.false_ne_true]
    cases a.closes with
    | some r => exact hp.weaken.beginClose ht r
    | none =>
      dsimp only
      split
      · exact (hp.connectionClosed a.gone).whole
      · exact hi

theorem Popped.onStreamGone (h : Popped (fun _ => False) o) : Inv (o.onStreamGone id) := by
  unfold Owner.onStreamGone
  split
  · have h' : Popped (fun _ => False) { o with delegates := o.delegates.erase id } :=
      { h with delegates := fun i hi => h.delegates i (mem_of_mem_erase hi) }
    exact h'.weaken.closeTunnel false
  · exact h.whole

theorem Popped.close (h : Popped (fun _ => False) o) (a : Answer) : Inv (o.close a) := by
  unfold Owner.close
  split
  · exact h.whole
  · have h' : Popped (fun _ => False) ({ o with closed := true }.push [.closeTunnels, .clear]) :=
      { h with
        stacked := h.stacked.push h.calm (fun _ => rfl) fun op i ho hi => by
          rcases mem_pair.1 (by simpa using ho) with rfl | rfl <;> cases hi
        calm := h.calm
        swept := fun _ _ _ _ => rfl
        clearing := fun _ => rfl }
    dsimp only
    split
    · exact (h'.connectionClosed a.gone).whole
    · exact h'.whole

theorem Popped.closeTunnels (h : Popped (fun _ => True) o) :
    Inv (o.push (o.entries.map fun t => .closeTunnel t.id)) := by
  have hc : has clears ((o.entries.map fun t => Op.closeTunnel t.id).map (Sum.inr : Op → ω ⊕ Op)) = false := by
    simp [has, clears]
  have hp : Popped (fun _ => True) (o.push (o.entries.map fun t => .closeTunnel t.id)) := by
    refine h.push (fun i => by simp [has, closesAfter]) hc fun op ho i hi => ?_
    obtain ⟨t, ht, rfl⟩ := mem_map.1 ho
    obtain rfl : t.id = i := by simpa [Op.tunnel?] using hi
    exact .inl (mem_map_of_mem ht)
  refine { hp with swept := fun _ t ht => reaches_of_has hc ?_ }
  refine has_of_mem (a := .inr (.closeTunnel t.id)) ?_ (by simp [closes])
  exact mem_map_of_mem (mem_map_of_mem (f := fun t => Op.closeTunnel t.id) ht)

theorem Inv.entries_of_clear (h : Inv o) (ht : o.todo = .inr .clear :: rest) : o.entries = [] := by
  have hc : o.closed = true := h.clearing (by rw [ht]; rfl)
  refine eq_nil_iff_forall_not_mem.2 fun t hm => ?_
  have hw := h.swept hc t hm
  rw [ht] at hw
  cases hw

/-! ## The end of a tunnel -/

def Entry.finished (t : Entry) : Entry :=
  { t with tunnelDisconnected := true, ownerDisconnected := true, socket := t.socket.disconnect }

def finish (o : Owner ω) (t : Entry) : Owner ω :=
  { o with disconnects := o.disconnects ++ if t.tunnelDisconnected then [] else [t] }.retire t t.finished

theorem closeAfterStopReading_eq (hf : o.find id = some t) (hr : t.Ready) (r : Bool) :
    o.closeAfterStopReading id r = (o.finish t).push [.closeAfterOnClosed id r] := by
  have hs := hr.hasSocket
  unfold closeAfterStopReading finish Entry.finished
  rw [hf]
  cases hd : t.tunnelDisconnected with
  | false => simp [disconnectSocket, onClosed, hs, hd]
  | true => simp [disconnectSocket, onClosed, hs, hd, hr.failed hd, Socket.disconnect, retire]

theorem disconnectCount_finish (o : Owner ω) (t : Entry) (i : Nat) : (o.finish t).disconnectCount i =
    o.disconnectCount i + if t.tunnelDisconnected = false ∧ t.id = i then 1 else 0 := by
  unfold disconnectCount finish retire
  cases t.tunnelDisconnected with
  | false => simp [count_cons]
  | true => simp

theorem Core.ended_finished (h : Core o) (ht : t ∈ o.entries) (hc : t.tunnelClosed = true) :
    (o.finish t).Ended t.finished := by
  refine ⟨hc, ?_⟩
  have hr := h.ready t ht
  have h0 := h.untouched t ht
  have hn : (o.finish t).disconnectCount t.finished.id = _ := disconnectCount_finish o t t.id
  rw [hn, h0]
  cases hd : t.tunnelDisconnected with
  | false =>
    refine .inl ⟨?_, by simp⟩
    have hs := hr.connected hd
    unfold Entry.finished
    cases hk : t.socket <;> simp [hk, Socket.descriptor, Socket.disconnect] at hs ⊢
  | true => exact .inr ⟨by simp [Entry.finished, hr.failed hd, Socket.disconnect], by simp⟩

theorem Core.finish (h : Core o) (ht : t ∈ o.entries) (hc : t.tunnelClosed = true) : Core (o.finish t) := by
  obtain ⟨hne, hnm⟩ := h.split_nodup ht
  have hcount : ∀ i, i ≠ t.id → (o.finish t).disconnectCount i = o.disconnectCount i := fun i hi => by
    rw [disconnectCount_finish, if_neg fun hn => hi hn.2.symm, Nat.add_zero]
  refine ⟨?_, h.nodup, fun i hi => ?_, fun s hs => h.ready s (mem_of_mem_erase hs), fun s hs => ?_, fun s hs => ?_,
    ?_, fun d hd => ?_⟩
  · have hp := h.split ht
    show ((o.entries.erase t).map Entry.id ++ (o.moved ++ [t.finished]).map Entry.id).Perm o.admitted
    rw [map_append, ← append_assoc]
    exact (perm_append_singleton t.id _).trans hp
  · obtain ⟨hi, hn⟩ := mem_filter.1 hi
    obtain ⟨s, hs, rfl⟩ := mem_map.1 (h.delegates i hi)
    have hst : s ≠ t := fun e => by simp [e] at hn
    exact mem_map_of_mem ((mem_erase_of_ne hst).2 hs)
  · rw [hcount s.id fun e => hne (e ▸ mem_map_of_mem hs)]
    exact h.untouched s (mem_of_mem_erase hs)
  · rcases mem_append.1 hs with hs | hs
    · unfold Ended
      rw [hcount s.id fun e => hnm (e ▸ mem_map_of_mem hs)]
      exact h.ended s hs
    · obtain rfl := mem_singleton.1 hs
      exact h.ended_finished ht hc
  · exact append_subset.2 ⟨fun s hs => mem_append_left _ (h.kept hs), fun s hs => mem_append_right _ hs⟩
  · rcases mem_append.1 hd with hd | hd
    · exact h.logged d hd
    · split at hd
      · cases hd
      · rw [mem_singleton.1 hd]
        exact h.mem_admitted ht

theorem Inv.closeAfterStopReading {rest : List (ω ⊕ Op)} {r : Bool} (h : Inv o)
    (ht : o.todo = .inr (.closeAfterStopReading id r) :: rest) : Inv ((o.pop rest).closeAfterStopReading id r) := by
  have hst : Stacked o.entries o.closedEntries (.inr (.closeAfterStopReading id r) :: rest) := ht ▸ h.stacked
  have hc : Calm rest := hst.calm fun _ => rfl
  obtain ⟨t, hm, rfl, htc⟩ := hst.entry id (by simp [closesAfter])
  have h0 : Core (o.pop rest) := { h with }
  rw [closeAfterStopReading_eq (h0.find_of_mem hm) (h.ready t hm)]
  have hne := (h.split_nodup hm).1
  have hopen : ∀ s ∈ o.entries.erase t, s.tunnelClosed = false := fun s hs => by
    by_contra hn
    rw [Bool.not_eq_false] at hn
    have hw := hst.closing s (mem_of_mem_erase hs) hn
    rw [has_cons, hc s.id, Bool.or_false] at hw
    have hi : t.id = s.id := by simpa [closesAfter] using hw
    exact hne (hi ▸ mem_map_of_mem hs)
  have hp : Popped (fun _ => False) ((o.pop rest).finish t) :=
    { h0.finish hm htc with
      stacked := {
        window := fun i => (above_cons.1 (hst.window i)).2
        closing := fun s hs hn => by cases (hopen s hs).symm.trans hn
        entry := fun i hi => by cases (hc i).symm.trans hi
        -- the entry is found in the list of closed ones from now on
        refs := fun op i ho hi => mem_ids_retire hm rfl (hst.refs op i (mem_cons_of_mem _ ho) hi) }
      calm := hc
      swept := fun hcl s hs _ => by
        have hw := h.swept hcl s (mem_of_mem_erase hs)
        rw [ht] at hw
        refine reaches_tail hw ?_
        have hi : t.id ≠ s.id := fun e => hne (e ▸ mem_map_of_mem hs)
        simpa [closes] using hi
      clearing := fun (hcl : has clears rest = true) => h.clearing (by rw [ht, has_cons, hcl, Bool.or_true]) }
  refine (hp.pushOp (.closeAfterOnClosed t.id r) (fun _ => rfl) rfl fun i hi => ?_).whole
  cases hi
  exact mem_ids_retire hm rfl (.inl (mem_map_of_mem hm))

theorem Inv.stopReading {rest : List (ω ⊕ Op)} {a : Answer} (h : Inv o) (ht : o.todo = .inr (.stopReading id) :: rest)
    (hs : o.stopReadingFails a = false) : Inv ((o.pop rest).stopReading a id) := by
  have hst : Stacked o.entries o.closedEntries (.inr (.stopReading id) :: rest) := ht ▸ h.stacked
  have hf : (a.writeFails && o.connected) = false := by rwa [stopReadingFails, ht] at hs
  unfold Owner.stopReading Owner.afterWrite
  rw [if_neg (by simpa using hf)]
  refine { h with
    delegates := fun i hi => h.delegates i ?_
    stacked := hst.pop fun _ => rfl
    swept := fun hc t hm => ?_
    clearing := fun hc => h.clearing (by rw [ht, has_cons, hc, Bool.or_true]) }
  · split at hi
    · exact mem_of_mem_erase hi
    · exact hi
  · have hw := h.swept hc t hm
    rw [ht] at hw
    exact reaches_tail hw rfl

theorem Inv.exec {rest : List (ω ⊕ Op)} {a : Answer} {op : Op} (h : Inv o) (ht : o.todo = .inr op :: rest)
    (hs : o.stopReadingFails a = false) : Inv ((o.pop rest).exec a op) := by
  cases op with
  | run id => exact Popped.run (h.popQuiet ht fun _ => rfl) a
  | stopReading id => exact h.stopReading ht hs
  | closeAfterStopReading id r => exact h.closeAfterStopReading ht
  | closeAfterOnClosed id r =>
    have hp : Popped (fun _ => False) (o.pop rest) := h.popQuiet ht fun _ => rfl
    show Inv (if r && o.connected then push (o.pop rest) [.reset id] else (o.pop rest))
    split
    · refine (hp.pushOp (.reset id) (fun _ => rfl) rfl fun i hi => ?_).whole
      exact h.stacked.refs (.closeAfterOnClosed id r) i (by rw [ht]; exact mem_cons_self) hi
    · exact hp.whole
  | reset id =>
    have hp : Popped (fun _ => False) (o.pop rest) := h.popQuiet ht fun _ => rfl
    exact (hp.afterWrite a).whole
  | onStreamGone id => exact Popped.onStreamGone (h.popQuiet ht fun _ => rfl)
  | close => exact Popped.close (h.popQuiet ht fun _ => rfl) a
  | closeTunnels =>
    exact Popped.closeTunnels (h.popped ht (fun _ hn => absurd trivial hn) (fun _ => rfl) fun _ => rfl)
  | closeTunnel id =>
    refine Popped.closeTunnel (h.popped ht (fun i hi => ?_) (fun _ => rfl) fun _ => rfl) false
    simpa [closes] using fun e => hi e.symm
  | clear =>
    have hp : Popped (fun _ => False) (o.pop rest) := h.popQuiet ht fun _ => rfl
    have he := h.entries_of_clear ht
    show Inv { o with todo := rest, entries := [], garbageAlarm := false }
    rw [← he]
    exact { hp.whole with }

theorem Popped.addEntry {p : Nat → Prop} (h : Popped p o) (hc : o.closed = false) (hr : t.Ready)
    (hto : t.tunnelClosed = false) (hi : t.id ∉ o.admitted) : Popped p (o.addEntry t) := by
  have hd : o.disconnectCount t.id = 0 := count_eq_zero.2 fun hm => by
    obtain ⟨d, hd, he⟩ := mem_map.1 hm
    exact hi (he ▸ h.logged d hd)
  refine ⟨⟨?_, ?_, fun i hm => ?_, fun s hs => ?_, fun s hs => ?_, h.ended, h.kept, fun d hm => ?_⟩, ⟨h.stacked.window,
    fun s hs hn => ?_, fun i hm => ?_, fun op i ho hm => ?_⟩, h.calm, fun hn => ?_, h.clearing⟩
  · exact (List.Perm.cons t.id h.ids).trans (perm_append_singleton t.id _).symm
  · exact nodup_append.2 ⟨h.nodup, nodup_singleton _, fun a ha b hb e =>
      hi (by rw [← mem_singleton.1 hb, ← e]; exact ha)⟩
  · exact (mem_cons.1 hm).elim (fun e => e ▸ mem_cons_self) fun hm => mem_cons_of_mem _ (h.delegates i hm)
  · exact (mem_cons.1 hs).elim (fun e => e ▸ hr) (h.ready s)
  · exact (mem_cons.1 hs).elim (fun e => e ▸ hd) (h.untouched s)
  · exact mem_append_left _ (h.logged d hm)
  · rcases mem_cons.1 hs with rfl | hs
    · cases hto.symm.trans hn
    · exact h.stacked.closing s hs hn
  · obtain ⟨s, hs, he⟩ := h.stacked.entry i hm
    exact ⟨s, mem_cons_of_mem _ hs, he⟩
  · exact (h.stacked.refs op i ho hm).imp_left (mem_cons_of_mem _)
  · cases hc.symm.trans hn

theorem Inv.idle (h : Inv o) (ht : o.todo = []) : Popped p o :=
  { h with
    calm := fun id => by rw [ht]; rfl
    swept := fun hc t hm _ => h.swept hc t hm }

theorem Inv.entries_of_closed (h : Inv o) (ht : o.todo = []) (hc : o.closed = true) : o.entries = [] := by
  refine eq_nil_iff_forall_not_mem.2 fun t hm => ?_
  have hw := h.swept hc t hm
  rw [ht] at hw
  cases hw

theorem Inv.collect (h : Inv o) (ht : o.todo = []) : Inv { o with closedEntries := [], garbageAlarm := false } := by
  refine { h with kept := nil_subset _, stacked := { h.stacked with refs := fun op i ho => ?_ } }
  rw [ht] at ho
  cases ho

theorem Inv.deliver {o' : Owner ω} {e : Ev} (h : Inv o) (ht : o.todo = []) (he : o.deliver e = some o') : Inv o' := by
  have hp : Popped (fun _ => False) o := h.idle ht
  cases e with
  | tunnelEvent id =>
    obtain ⟨hs, ⟨⟩⟩ := ite_none_right_eq_some.1 he
    obtain ⟨t, hf⟩ := isSome_iff_exists.1 hs
    obtain ⟨hm, rfl⟩ := mem_of_find hf
    exact (hp.pushRun (mem_map_of_mem hm)).whole
  | streamGone | close =>
    cases he
    exact (hp.pushOp _ (fun _ => rfl) rfl fun i hi => by cases hi).whole
  | connectionClosed gone =>
    obtain ⟨-, ⟨⟩⟩ := ite_none_right_eq_some.1 he
    exact (hp.connectionClosed gone).whole
  | collectStreamGarbage =>
    obtain ⟨-, ⟨⟩⟩ := ite_none_right_eq_some.1 he
    exact h.collect ht

/-! ## What a block can do -/

inductive Change (o o' : Owner ω) : Prop
  | same (entries : o'.entries = o.entries) (closedEntries : o'.closedEntries = o.closedEntries)
      (disconnects : o'.disconnects = o.disconnects)
  | begun (t : Entry) (mem : t ∈ o.entries) (entries : o'.entries =
    { t with tunnelClosed := true } :: o.entries.erase t)
      (closedEntries : o'.closedEntries = o.closedEntries) (disconnects : o'.disconnects = o.disconnects)
  | finished (t : Entry) (mem : t ∈ o.entries) (entries : o'.entries = o.entries.erase t)
      (closedEntries : o'.closedEntries = o.closedEntries ++ [t.finished])
      (disconnects : o'.disconnects = o.disconnects ++ if t.tunnelDisconnected then [] else [t])

structure Frame (o o' : Owner ω) : Prop where
  admitted : o'.admitted = o.admitted
  pushed : ∃ ops : List Op, o'.todo = ops.map Sum.inr ++ o.todo
  closed : o'.closed = true → o.closed = true ∨ has clears o'.todo = true
  change : Change o o'

variable {o' : Owner ω}

theorem Frame.own_eq (h : Frame o o') : o'.own = o.own := by
  obtain ⟨ops, ho⟩ := h.pushed
  have hn : (ops.map (Sum.inr : Op → ω ⊕ Op)).filterMap Sum.getLeft? = [] := by
    rw [filterMap_map, filterMap_eq_nil_iff]
    exact fun _ _ => rfl
  rw [own, ho, filterMap_append, hn, nil_append, own]

theorem Frame.clears_of (h : Frame o o') (hc : has clears o.todo = true) : has clears o'.todo = true := by
  obtain ⟨ops, ho⟩ := h.pushed
  rw [ho, has_append, hc, Bool.or_true]

abbrev heldIds (o : Owner ω) : List Nat := (o.entries ++ o.closedEntries).map Entry.id

theorem Frame.ids (h : Frame o o') {i : Nat} (hi : i ∈ o.heldIds) : i ∈ o'.heldIds := by
  rw [heldIds, map_append, mem_append] at hi ⊢
  cases h.change with
  | same he hc _ => rwa [he, hc]
  | begun t ht he hc _ =>
    rw [he, hc]
    exact hi.imp_left (mem_ids_put ht (by rfl) i).1
  | finished t ht he hc _ =>
    rw [he, hc]
    exact mem_ids_retire ht rfl hi

theorem Frame.refl (o : Owner ω) : Frame o o := ⟨rfl, ⟨[], rfl⟩, .inl, .same rfl rfl rfl⟩

theorem Frame.of_delegates {ds : List Nat} (h : Frame { o with delegates := ds } o') : Frame o o' where
  admitted := h.admitted
  pushed := h.pushed
  closed := h.closed
  change := match h.change with
    | .same he hc hd => .same he hc hd
    | .begun t ht he hc hd => .begun t ht he hc hd
    | .finished t ht he hc hd => .finished t ht he hc hd

theorem frame_push (o : Owner ω) (ops : List Op) : Frame o (o.push ops) := ⟨rfl, ⟨ops, rfl⟩, .inl, .same rfl rfl rfl⟩

theorem frame_connectionClosed (o : Owner ω) (gone : List Nat) : Frame o (o.connectionClosed gone) :=
  ⟨rfl, ⟨_, rfl⟩, .inl, .same rfl rfl rfl⟩

theorem frame_afterWrite (o : Owner ω) (a : Answer) : Frame o (o.afterWrite a) := by
  unfold afterWrite
  split
  · exact frame_connectionClosed o a.gone
  · exact .refl o

theorem frame_beginClose (ht : t ∈ o.entries) (r : Bool) : Frame o (o.beginClose t r) :=
  ⟨rfl, ⟨[_, _], rfl⟩, .inl, .begun t ht rfl rfl rfl⟩

theorem frame_closeTunnel (o : Owner ω) (id : Nat) (r : Bool) : Frame o (o.closeTunnel id r) := by
  unfold closeTunnel
  cases hf : o.find id with
  | none => exact .refl o
  | some t =>
    dsimp only
    split
    · exact .refl o
    · exact frame_beginClose (mem_of_find hf).1 r

theorem frame_run (o : Owner ω) (a : Answer) (id : Nat) : Frame o (o.run a id) := by
  unfold run
  cases hf : o.find id with
  | none => exact .refl o
  | some t =>
    dsimp only
    split
    · exact .refl o
    · cases a.closes with
      | some r => exact ⟨rfl, ⟨[_, _, _], rfl⟩, .inl, .begun t (mem_of_find hf).1 rfl rfl rfl⟩
      | none =>
        dsimp only
        split
        · refine ⟨rfl, ⟨(a.gone.map Op.onStreamGone ++ [Op.close]) ++ [.run id], ?_⟩, .inl, .same rfl rfl rfl⟩
          simp [connectionClosed, push]
        · exact .refl o

theorem frame_close (o : Owner ω) (a : Answer) : Frame o (o.close a) := by
  unfold close
  split
  · exact .refl o
  · dsimp only
    split
    · refine ⟨rfl, ⟨(a.gone.map Op.onStreamGone ++ [Op.close]) ++ [.closeTunnels, .clear], ?_⟩, fun _ => .inr ?_,
        .same rfl rfl rfl⟩
      · simp [connectionClosed, push]
      · simp [connectionClosed, push, clears]
    · exact ⟨rfl, ⟨[_, _], rfl⟩, fun _ => .inr rfl, .same rfl rfl rfl⟩

theorem frame_exec (h : Core o) (a : Answer) (op : Op) (hc : op = .clear → o.entries = []) : Frame o (o.exec a op) := by
  cases op with
  | run id => exact frame_run o a id
  | stopReading id => exact (frame_afterWrite { o with delegates := _ } a).of_delegates
  | closeAfterStopReading id r =>
    show Frame o (o.closeAfterStopReading id r)
    cases hf : o.find id with
    | none =>
      rw [closeAfterStopReading, hf]
      exact .refl o
    | some t =>
      have ht := (mem_of_find hf).1
      rw [closeAfterStopReading_eq hf (h.ready t ht)]
      exact ⟨rfl, ⟨[_], rfl⟩, .inl, .finished t ht rfl rfl rfl⟩
  | closeAfterOnClosed id r =>
    show Frame o (if r && o.connected then o.push [.reset id] else o)
    split
    · exact frame_push o _
    · exact .refl o
  | reset id => exact frame_afterWrite o a
  | onStreamGone id =>
    show Frame o (o.onStreamGone id)
    unfold onStreamGone
    split
    · exact (frame_closeTunnel { o with delegates := _ } id false).of_delegates
    · exact .refl o
  | close => exact frame_close o a
  | closeTunnels => exact frame_push o _
  | closeTunnel id => exact frame_closeTunnel o id false
  | clear => exact ⟨rfl, ⟨[], rfl⟩, .inl, .same (hc rfl).symm rfl rfl⟩

theorem frame_deliver {e : Ev} (he : o.deliver e = some o') (hc : e ≠ .collectStreamGarbage) : Frame o o' := by
  cases e with
  | tunnelEvent id => exact some.inj (ite_none_right_eq_some.1 he).2 ▸ frame_push o _
  | streamGone | close => exact some.inj he ▸ frame_push o _
  | connectionClosed gone => exact some.inj (ite_none_right_eq_some.1 he).2 ▸ frame_connectionClosed o gone
  | collectStreamGarbage => exact absurd rfl hc

theorem Core.descriptor_closed (h : Core o) (ht : t ∈ o.closedEntries) : t.descriptor = none := by
  obtain ⟨-, ⟨hs, -⟩ | ⟨hs, -⟩⟩ := h.ended t (h.kept ht)
  all_goals rw [Entry.descriptor, hs]; rfl

theorem inv_init : Inv ({} : Owner ω) where
  ids := .nil
  nodup := .nil
  delegates := forall_mem_nil _
  ready := forall_mem_nil _
  untouched := forall_mem_nil _
  ended := forall_mem_nil _
  kept := nil_subset _
  logged := forall_mem_nil _
  stacked := {
    window := fun _ => .nil
    closing := forall_mem_nil _
    entry := nofun
    refs := nofun }
  swept := nofun
  clearing := nofun

end

end Owner

end Quictun
