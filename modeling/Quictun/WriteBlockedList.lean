import Mathlib.Data.List.FinRange
import Mathlib.Logic.Function.Basic
import Quictun.Run

/-!
# Batch writes

`QuicWriteBlockedList` hands out turns by urgency and, within one, first come, first served; but a
stream that was popped while others wait is latched, and goes to the front again until it has written
16000 bytes. Stream 0 stands for "none" in the latch, though it may be a stream of its own, and the
bytes that are left survive the latch.

For streams of one urgency the list is a queue with a budget (`BatchQueue`). What a stream reports when
it is back on the list already is not part of the budget it is back on the list with.
-/

namespace Quictun

open List Function Option

structure StreamInfo where
  urgency : Fin 8
  incremental : Bool
  ready : Bool := false

structure PriorityWriteScheduler where
  numReadyStreams : Nat := 0
  readyList : Fin 8 → List Nat := fun _ => []
  streamInfos : Nat → Option StreamInfo := fun _ => none

namespace PriorityWriteScheduler

variable (s : PriorityWriteScheduler)

def registerStream (id : Nat) (urgency : Fin 8) (incremental : Bool) : PriorityWriteScheduler :=
  if (s.streamInfos id).isSome then s
  else { s with streamInfos := update s.streamInfos id (some { urgency, incremental }) }

def erase (urgency : Fin 8) (id : Nat) : PriorityWriteScheduler :=
  if id ∈ s.readyList urgency then
    { s with
      readyList := update s.readyList urgency ((s.readyList urgency).erase id)
      numReadyStreams := s.numReadyStreams - 1 }
  else s

def unregisterStream (id : Nat) : PriorityWriteScheduler :=
  match s.streamInfos id with
  | none => s
  | some info =>
    let s := if info.ready then s.erase info.urgency id else s
    { s with streamInfos := update s.streamInfos id none }

/-- The loop over the urgencies; with nothing ready, stream 0 at the lowest one, and a bug. -/
def popFrom : List (Fin 8) → (Nat × Fin 8 × Bool) × PriorityWriteScheduler
  | [] => ((0, 7, false), s)
  | urgency :: rest =>
    match s.readyList urgency with
    | [] => popFrom rest
    | id :: ready =>
      let info := (s.streamInfos id).getD { urgency, incremental := false }
      ((id, info.urgency, info.incremental),
        { numReadyStreams := s.numReadyStreams - 1
          readyList := update s.readyList urgency ready
          streamInfos := update s.streamInfos id (some { info with ready := false }) })

def popNextReadyStreamAndPriority : (Nat × Fin 8 × Bool) × PriorityWriteScheduler := s.popFrom (List.finRange 8)

def markStreamReady (id : Nat) (addToFront : Bool) : PriorityWriteScheduler :=
  match s.streamInfos id with
  | none => s
  | some info =>
    if info.ready then s
    else
      let ready := s.readyList info.urgency
      { numReadyStreams := s.numReadyStreams + 1
        readyList := update s.readyList info.urgency (if addToFront then id :: ready else ready ++ [id])
        streamInfos := update s.streamInfos id (some { info with ready := true }) }

def hasReadyStreams : Bool := 0 < s.numReadyStreams

end PriorityWriteScheduler

open PriorityWriteScheduler

structure StreamIdBlockedPair where
  id : Nat
  isBlocked : Bool

structure StaticStreamCollection where
  streams : List StreamIdBlockedPair := []
  numBlocked : Nat := 0

namespace StaticStreamCollection

variable (c : StaticStreamCollection)

def register (id : Nat) : StaticStreamCollection := { c with streams := c.streams ++ [⟨id, false⟩] }

def setBlockedness (id : Nat) (isBlocked : Bool) : List StreamIdBlockedPair :=
  c.streams.map fun stream => if stream.id = id then { stream with isBlocked } else stream

def unregister (id : Nat) : Option StaticStreamCollection :=
  (c.streams.find? fun stream => stream.id = id).map fun stream =>
    { streams := c.streams.eraseP fun stream => stream.id = id
      numBlocked := if stream.isBlocked then c.numBlocked - 1 else c.numBlocked }

def setBlocked (id : Nat) : Option StaticStreamCollection :=
  (c.streams.find? fun stream => stream.id = id).map fun stream =>
    { streams := c.setBlockedness id true
      numBlocked := if stream.isBlocked then c.numBlocked else c.numBlocked + 1 }

def unblockFirstBlocked : Option (Nat × StaticStreamCollection) :=
  (c.streams.find? fun stream => stream.isBlocked).map fun stream =>
    (stream.id, { streams := c.setBlockedness stream.id false, numBlocked := c.numBlocked - 1 })

end StaticStreamCollection

structure QuicWriteBlockedList where
  priorityWriteScheduler : PriorityWriteScheduler := {}
  batchWriteStreamId : Fin 8 → Nat := fun _ => 0
  bytesLeftForBatchWrite : Fin 8 → Nat := fun _ => 0
  lastPriorityPopped : Fin 8 := 0
  staticStreamCollection : StaticStreamCollection := {}
  respectIncremental : Bool := false
  disableBatchWrite : Bool := false

def kBatchWriteSize : Nat := 16000

namespace QuicWriteBlockedList

variable (l : QuicWriteBlockedList)

def numBlockedStreams : Nat := l.staticStreamCollection.numBlocked + l.priorityWriteScheduler.numReadyStreams

/-- Which stream is latched after a stream was popped, with how many bytes left. -/
def latch (id : Nat) (urgency : Fin 8) (incremental : Bool) : QuicWriteBlockedList :=
  let latched := { l with batchWriteStreamId := update l.batchWriteStreamId urgency id }
  if l.disableBatchWrite then if !l.respectIncremental || !incremental then latched else l
  else if !l.priorityWriteScheduler.hasReadyStreams then
    { l with batchWriteStreamId := update l.batchWriteStreamId urgency 0 }
  else if l.batchWriteStreamId urgency ≠ id then
    { latched with bytesLeftForBatchWrite := update l.bytesLeftForBatchWrite urgency kBatchWriteSize }
  else l

def popFront : Nat × QuicWriteBlockedList :=
  match l.staticStreamCollection.unblockFirstBlocked with
  | some (id, staticStreamCollection) => (id, { l with staticStreamCollection })
  | none =>
    let ((id, urgency, incremental), priorityWriteScheduler) := l.priorityWriteScheduler.popNextReadyStreamAndPriority
    (id, { l with priorityWriteScheduler, lastPriorityPopped := urgency }.latch id urgency incremental)

def registerStream (id : Nat) (isStaticStream : Bool) (urgency : Fin 8) (incremental : Bool) : QuicWriteBlockedList :=
  if isStaticStream then { l with staticStreamCollection := l.staticStreamCollection.register id }
  else { l with priorityWriteScheduler := l.priorityWriteScheduler.registerStream id urgency incremental }

def unregisterStream (id : Nat) : QuicWriteBlockedList :=
  match l.staticStreamCollection.unregister id with
  | some staticStreamCollection => { l with staticStreamCollection }
  | none => { l with priorityWriteScheduler := l.priorityWriteScheduler.unregisterStream id }

def updateBytesForStream (id bytes : Nat) : QuicWriteBlockedList :=
  let last := l.lastPriorityPopped
  let left := l.bytesLeftForBatchWrite last
  if l.disableBatchWrite then l
  else if l.batchWriteStreamId last = id then
    { l with bytesLeftForBatchWrite := update l.bytesLeftForBatchWrite last (left - min left bytes) }
  else l

def addStream (id : Nat) : QuicWriteBlockedList :=
  match l.staticStreamCollection.setBlocked id with
  | some staticStreamCollection => { l with staticStreamCollection }
  | none =>
    let latched : Bool := id = l.batchWriteStreamId l.lastPriorityPopped
    let incremental := ((l.priorityWriteScheduler.streamInfos id).map (·.incremental)).getD false
    let pushFront :=
      if l.respectIncremental && !incremental then latched
      else !l.disableBatchWrite && latched && 0 < l.bytesLeftForBatchWrite l.lastPriorityPopped
    { l with priorityWriteScheduler := l.priorityWriteScheduler.markStreamReady id pushFront }

end QuicWriteBlockedList

/-! ## Streams of one urgency -/

structure BatchQueue where
  ready : List Nat := []
  latch : Nat := 0
  left : Nat := 0

namespace BatchQueue

variable (q : BatchQueue)

def add (id : Nat) : BatchQueue :=
  if id ∈ q.ready then q
  else if id = q.latch ∧ 0 < q.left then { q with ready := id :: q.ready }
  else { q with ready := q.ready ++ [id] }

def popped (id : Nat) (rest : List Nat) : BatchQueue :=
  if rest = [] then { q with ready := rest, latch := 0 }
  else if q.latch = id then { q with ready := rest }
  else { ready := rest, latch := id, left := kBatchWriteSize }

def wrote (id bytes : Nat) : BatchQueue :=
  if q.latch = id then { q with left := q.left - min q.left bytes } else q

def remove (id : Nat) : BatchQueue := { q with ready := q.ready.erase id }

theorem ready_popped (id : Nat) (rest : List Nat) : (q.popped id rest).ready = rest := by
  unfold popped
  split
  · rfl
  · split <;> rfl

end BatchQueue

/-- All streams are of urgency `u`; those in `ready` are on its list, and know it. -/
structure PriorityWriteScheduler.Lists (u : Fin 8) (s : PriorityWriteScheduler) (ready : List Nat) : Prop where
  only : s.readyList = update (fun _ => []) u ready
  count : s.numReadyStreams = ready.length
  info : ∀ id info, s.streamInfos id = some info → info.urgency = u ∧ (info.ready = true ↔ id ∈ ready)
  listed : ∀ id ∈ ready, (s.streamInfos id).isSome

namespace PriorityWriteScheduler.Lists

variable {u : Fin 8} {s : PriorityWriteScheduler} {ready ready' : List Nat} {id : Nat}

section
variable (h : Lists u s ready)
include h

theorem readyList : s.readyList u = ready := by rw [h.only, update_self]

theorem update (id : Nat) (o : Option StreamInfo) (hothers : ∀ id', id' ≠ id → (id' ∈ ready' ↔ id' ∈ ready))
    (ho : ∀ info, o = some info → info.urgency = u ∧ (info.ready = true ↔ id ∈ ready')) (hs : id ∈ ready' → o.isSome) :
    Lists u ⟨ready'.length, update s.readyList u ready', update s.streamInfos id o⟩ ready' := by
  refine ⟨by dsimp only; rw [h.only, update_idem], rfl, fun id' info hi => ?_, fun id' hm => ?_⟩
  · dsimp only at hi
    by_cases he : id' = id
    · subst he
      rw [update_self] at hi
      exact ho info hi
    · rw [update_of_ne he] at hi
      rw [hothers id' he]
      exact h.info id' info hi
  · dsimp only
    by_cases he : id' = id
    · subst he
      rw [update_self]
      exact hs hm
    · rw [update_of_ne he]
      exact h.listed id' ((hothers id' he).1 hm)

theorem eta : Function.update s.readyList u ready = s.readyList := by
  rw [h.only, update_idem]

theorem registerStream (hid : s.streamInfos id = none) (incremental : Bool) :
    Lists u (s.registerStream id u incremental) ready := by
  have hoff : id ∉ ready := fun hm => by simpa [hid] using h.listed id hm
  have hnew := h.update id (some { urgency := u, incremental }) (fun _ _ => Iff.rfl)
    (fun info hi => by cases hi; exact ⟨rfl, by simp [hoff]⟩) fun _ => rfl
  rw [h.eta, ← h.count] at hnew
  rw [PriorityWriteScheduler.registerStream, hid]
  exact hnew

theorem unregisterStream (hn : ready.Nodup) (id : Nat) : Lists u (s.unregisterStream id) (ready.erase id) := by
  rw [PriorityWriteScheduler.unregisterStream]
  cases hi : s.streamInfos id with
  | none =>
    have hoff : id ∉ ready := fun hm => by simpa [hi] using h.listed id hm
    rwa [erase_of_not_mem hoff]
  | some info =>
    obtain ⟨rfl, hready⟩ := h.info id info hi
    have hnew := h.update id none (fun _ he => mem_erase_of_ne he) nofun
      fun hm => absurd hm hn.not_mem_erase
    dsimp only
    by_cases hm : id ∈ ready
    · rw [if_pos (hready.2 hm), erase, h.readyList, if_pos hm, h.count, ← length_erase_of_mem hm]
      exact hnew
    · rw [if_neg fun ht => hm (hready.1 ht)]
      rw [erase_of_not_mem hm, h.eta, ← h.count] at hnew
      rwa [erase_of_not_mem hm]

theorem markStreamReady (hs : (s.streamInfos id).isSome) (hoff : id ∉ ready) (addToFront : Bool) :
    Lists u (s.markStreamReady id addToFront) (if addToFront then id :: ready else ready ++ [id]) := by
  obtain ⟨info, hi⟩ := isSome_iff_exists.1 hs
  obtain ⟨rfl, hready⟩ := h.info id info hi
  have hnew : Lists _ _ (if addToFront then id :: ready else ready ++ [id]) :=
    h.update id (some { info with ready := true }) (fun id' he => by cases addToFront <;> simp [he])
    (fun info hi => by cases hi; cases addToFront <;> simp) fun _ => rfl
  rw [markStreamReady, hi]
  dsimp only
  rw [if_neg fun ht => hoff (hready.1 ht), h.readyList, h.count]
  have hlen : (if addToFront then id :: ready else ready ++ [id]).length =
    ready.length + 1 := by cases addToFront <;> simp
  rwa [hlen] at hnew

theorem markStreamReady_of_mem (hm : id ∈ ready) (addToFront : Bool) :
    s.markStreamReady id addToFront = s := by
  obtain ⟨info, hi⟩ := isSome_iff_exists.1 (h.listed id hm)
  rw [PriorityWriteScheduler.markStreamReady, hi]
  dsimp only
  rw [if_pos ((h.info id info hi).2.2 hm)]

end

theorem popFrom (h : Lists u s (id :: ready)) (hn : (id :: ready).Nodup) :
    ∀ {urgencies : List (Fin 8)}, u ∈ urgencies →
      ∃ incremental s', s.popFrom urgencies = ((id, u, incremental), s') ∧ Lists u s' ready
  | [], hm => by cases hm
  | v :: urgencies, hm => by
    rw [PriorityWriteScheduler.popFrom]
    by_cases hv : v = u
    · subst hv
      obtain ⟨info, hi⟩ := Option.isSome_iff_exists.1 (h.listed id List.mem_cons_self)
      obtain ⟨rfl, -⟩ := h.info id info hi
      have hnew : Lists _ _ ready := h.update id (some { info with ready := false }) (fun id' he => by simp [he])
        (fun info hi => by cases hi; simp [(List.nodup_cons.1 hn).1]) fun _ => rfl
      rw [h.readyList]
      dsimp only
      rw [hi, h.count]
      exact ⟨_, _, rfl, hnew⟩
    · rw [h.only, update_of_ne hv]
      exact h.popFrom hn (List.mem_of_ne_of_mem (Ne.symm hv) hm)

end PriorityWriteScheduler.Lists

structure Serves (u : Fin 8) (l : QuicWriteBlockedList) (q : BatchQueue) : Prop where
  static : l.staticStreamCollection = {}
  flags : l.respectIncremental = false ∧ l.disableBatchWrite = false
  lists : l.priorityWriteScheduler.Lists u q.ready
  latch : l.batchWriteStreamId u = q.latch
  left : l.bytesLeftForBatchWrite u = q.left
  /-- Before the first stream is popped, nothing is left anywhere. -/
  last : l.lastPriorityPopped = u ∨ l.batchWriteStreamId l.lastPriorityPopped = 0 ∧
    l.bytesLeftForBatchWrite l.lastPriorityPopped = 0 ∧ q.latch = 0 ∧ q.left = 0

namespace Serves

variable {u : Fin 8} {l : QuicWriteBlockedList} {q : BatchQueue} {id : Nat}

section
variable (h : Serves u l q)
include h

theorem latched : l.batchWriteStreamId l.lastPriorityPopped = q.latch := by
  rcases h.last with hl | ⟨hl, -, hq, -⟩
  · rw [hl, h.latch]
  · rw [hl, hq]

theorem bytesLeft : l.bytesLeftForBatchWrite l.lastPriorityPopped = q.left := by
  rcases h.last with hl | ⟨-, hl, -, hq⟩
  · rw [hl, h.left]
  · rw [hl, hq]

theorem numBlockedStreams : l.numBlockedStreams = q.ready.length := by
  rw [QuicWriteBlockedList.numBlockedStreams, h.static, h.lists.count]
  exact Nat.zero_add _

theorem unregisterStream (hn : q.ready.Nodup) (id : Nat) : Serves u (l.unregisterStream id) (q.remove id) := by
  unfold QuicWriteBlockedList.unregisterStream
  split
  next hs =>
    rw [h.static] at hs
    cases hs
  · exact { h with lists := h.lists.unregisterStream hn id }

theorem addStream (hs : (l.priorityWriteScheduler.streamInfos id).isSome) : Serves u (l.addStream id) (q.add id) := by
  unfold QuicWriteBlockedList.addStream
  split
  next hs =>
    rw [h.static] at hs
    cases hs
  · dsimp only
    have hfront :
      (if l.respectIncremental && !((l.priorityWriteScheduler.streamInfos id).map (·.incremental)).getD false then
        decide (id = l.batchWriteStreamId l.lastPriorityPopped)
      else !l.disableBatchWrite && decide (id = l.batchWriteStreamId l.lastPriorityPopped) &&
        decide (0 < l.bytesLeftForBatchWrite l.lastPriorityPopped)) = decide (id = q.latch ∧ 0 < q.left) := by
      simp [h.flags, h.latched, h.bytesLeft]
    rw [hfront]
    by_cases hm : id ∈ q.ready
    · rw [h.lists.markStreamReady_of_mem hm, BatchQueue.add, if_pos hm]
      exact h
    · have hl := h.lists.markStreamReady hs hm (decide (id = q.latch ∧ 0 < q.left))
      rw [BatchQueue.add, if_neg hm]
      split
      next hf =>
        exact { h with lists := by simpa [hf] using hl }
      next hf =>
        exact { h with lists := by simpa [hf] using hl }

theorem updateBytesForStream (id bytes : Nat) : Serves u (l.updateBytesForStream id bytes) (q.wrote id bytes) := by
  unfold QuicWriteBlockedList.updateBytesForStream BatchQueue.wrote
  rw [if_neg (by simp [h.flags.2]), h.latched, h.bytesLeft]
  split
  · rcases h.last with hl | ⟨hb, hl, hq, h0⟩
    · refine { h with left := ?_, last := .inl hl }
      dsimp only
      rw [hl, update_self]
    · refine { h with left := ?_, last := .inr ⟨hb, ?_, hq, ?_⟩ }
      · rw [h0, Nat.zero_sub, update_eq_self_iff.2 hl.symm, h.left, h0]
      · dsimp only
        rw [update_self, h0, Nat.zero_sub]
      · rw [h0, Nat.zero_sub]
  · exact h

theorem popFront {rest : List Nat} (hq : q.ready = id :: rest) (hn : q.ready.Nodup) :
    l.popFront.1 = id ∧ Serves u l.popFront.2 (q.popped id rest) := by
  have hl := h.lists
  rw [hq] at hl hn
  obtain ⟨incremental, s', hs, hl'⟩ := hl.popFrom hn (mem_finRange u)
  unfold QuicWriteBlockedList.popFront
  split
  next hs =>
    rw [h.static] at hs
    cases hs
  · rw [popNextReadyStreamAndPriority, hs]
    refine ⟨rfl, ?_⟩
    dsimp only
    unfold QuicWriteBlockedList.latch BatchQueue.popped
    have hready : s'.hasReadyStreams = decide (rest ≠ []) := by
      rw [hasReadyStreams, hl'.count]
      exact decide_eq_decide.2 length_pos_iff
    rw [if_neg (by simp [h.flags.2])]
    by_cases hr : rest = []
    · rw [if_pos hr, if_pos (by rw [hready]; simp [hr])]
      exact { h with lists := hl', latch := update_self .., last := .inl rfl }
    rw [if_neg hr, if_neg (by rw [hready]; simp [hr])]
    by_cases hid : q.latch = id
    · rw [if_pos hid, if_neg (by rw [h.latch]; exact not_not.2 hid)]
      exact { h with lists := hl', last := .inl rfl }
    · rw [if_neg hid, if_pos (by rw [h.latch]; exact hid)]
      exact { h with lists := hl', latch := update_self .., left := update_self .., last := .inl rfl }

end

end Serves

/-! ## Turns -/

namespace QuicWriteBlockedList

/-- `PopFront()` comes with the stream it returns. -/
inductive Ev where
  | registerStream (id : Nat) (incremental : Bool)
  | unregisterStream (id : Nat)
  | addStream (id : Nat)
  | popFront (id : Nat)
  | updateBytesForStream (id bytes : Nat)
deriving DecidableEq

structure Tunnels where
  list : QuicWriteBlockedList := {}
  lastPopped : Option Nat := none

/-- Streams are registered once before they are used, and `PopFront()` is called when a stream is blocked. -/
def step (u : Fin 8) (t : Tunnels) : Ev → Option Tunnels
  | .registerStream id incremental =>
    if (t.list.priorityWriteScheduler.streamInfos id).isNone then some
      { t with list := t.list.registerStream id false u incremental }
    else none
  | .unregisterStream id =>
    if (t.list.priorityWriteScheduler.streamInfos id).isSome then some
      { t with list := t.list.unregisterStream id } else none
  | .addStream id =>
    if (t.list.priorityWriteScheduler.streamInfos id).isSome then some { t with list := t.list.addStream id } else none
  | .popFront id =>
    if 0 < t.list.numBlockedStreams ∧ t.list.popFront.1 = id then
      some { list := t.list.popFront.2, lastPopped := some id }
    else none
  | .updateBytesForStream id bytes =>
    if t.lastPopped = some id then some { t with list := t.list.updateBytesForStream id bytes } else none

/-- Of the events, the newest first: `b` was added, and since then neither popped nor unregistered. -/
def waits (b : Nat) : List Ev → Bool
  | [] => false
  | .addStream id :: es => id = b || waits b es
  | .popFront id :: es => id ≠ b && waits b es
  | .unregisterStream id :: es => id ≠ b && waits b es
  | .registerStream _ _ :: es => waits b es
  | .updateBytesForStream _ _ :: es => waits b es

def beginsWait (b : Nat) (es : List Ev) (e : Ev) : Bool := e = .addStream b && !waits b es

/-- What `a` reports, if `all`, also when it is back on the list. -/
def bytesOf (all : Bool) (a : Nat) (es : List Ev) : Ev → Nat
  | .updateBytesForStream id bytes => if id = a ∧ (all || !waits a es) then bytes else 0
  | .registerStream _ _ => 0
  | .unregisterStream _ => 0
  | .addStream _ => 0
  | .popFront _ => 0

def reported (all : Bool) (a b : Nat) : List Ev → Nat
  | [] => 0
  | e :: es => if beginsWait b es e then 0 else bytesOf all a es e + reported all a b es

def lastTurn (a b : Nat) : List Ev → Nat
  | [] => 0
  | e :: es => if beginsWait b es e || e = .popFront a then 0 else bytesOf false a es e + lastTurn a b es

def Ahead (a b : Nat) : List Nat → Prop
  | [] => False
  | id :: ready => id ≠ b ∧ (id = a ∨ Ahead a b ready)

variable {a b id : Nat} {ready : List Nat}

theorem Ahead.mem (h : Ahead a b ready) : a ∈ ready := by
  induction ready with
  | nil => cases h
  | cons id ready ih =>
    rcases h.2 with rfl | h
    · exact mem_cons_self
    · exact mem_cons_of_mem _ (ih h)

theorem Ahead.of_append (hb : b ∈ ready) (h : Ahead a b (ready ++ [id])) : Ahead a b ready := by
  induction ready with
  | nil => cases hb
  | cons x ready ih => exact ⟨h.1, h.2.imp_right (ih (mem_of_ne_of_mem (Ne.symm h.1) hb))⟩

theorem Ahead.of_erase (hid : id ≠ b) (h : Ahead a b (ready.erase id)) : Ahead a b ready := by
  induction ready with
  | nil => exact h
  | cons x ready ih =>
    rw [erase_cons] at h
    split at h
    next hx => exact ⟨fun he => hid ((eq_of_beq hx).symm.trans he), .inr h⟩
    · exact ⟨h.1, h.2.imp_right ih⟩

structure Bypass (a b : Nat) (es : List Ev) (q : BatchQueue) : Prop where
  turn : reported false a b es < kBatchWriteSize + lastTurn a b es
  latched : q.latch = a → q.left = 0 ∨ reported false a b es + q.left ≤ kBatchWriteSize
  ahead : Ahead a b q.ready → reported false a b es = 0 ∨ q.ready.head? = some a ∧ q.latch = a ∧
    reported false a b es < kBatchWriteSize

structure Fair (es : List Ev) (q : BatchQueue) : Prop where
  nodup : q.ready.Nodup
  left : q.left ≤ kBatchWriteSize
  waits : ∀ b, waits b es = true ↔ b ∈ q.ready
  bypass : ∀ a b, a ≠ b → b ∈ q.ready → Bypass a b es q

variable {es : List Ev} {q : BatchQueue}

theorem kBatchWriteSize_pos : 0 < kBatchWriteSize := Nat.zero_lt_succ _

theorem reported_cons (e : Ev) (hw : beginsWait b es e = false) (all : Bool) :
    reported all a b (e :: es) = bytesOf all a es e + reported all a b es := by
  rw [reported, hw, if_neg Bool.false_ne_true]

theorem lastTurn_cons (e : Ev) (hw : beginsWait b es e = false) (he : e ≠ .popFront a) :
    lastTurn a b (e :: es) = bytesOf false a es e + lastTurn a b es := by
  rw [lastTurn, hw, if_neg (by simp [he])]

variable {e : Ev}

theorem Bypass.quiet (h : Bypass a b es q) (hw : beginsWait b es e = false) (he : e ≠ .popFront a)
    (h0 : bytesOf false a es e = 0) : Bypass a b (e :: es) q := by
  have hr := reported_cons (a := a) e hw false
  have hl := lastTurn_cons e hw he
  rw [h0, Nat.zero_add] at hr hl
  exact ⟨hr ▸ hl ▸ h.turn, hr ▸ h.latched, hr ▸ h.ahead⟩

theorem Fair.register (h : Fair es q) (id : Nat) (incremental : Bool) : Fair (.registerStream id incremental :: es) q :=
  ⟨h.nodup, h.left, h.waits, fun a b hne hb => (h.bypass a b hne hb).quiet (by simp [beginsWait]) (by simp) rfl⟩

theorem Fair.add (h : Fair es q) (id : Nat) : Fair (.addStream id :: es) (q.add id) := by
  have hwaits : ∀ b, QuicWriteBlockedList.waits b (.addStream id :: es) = true ↔ b = id ∨ b ∈ q.ready := by
    intro b
    rw [QuicWriteBlockedList.waits, Bool.or_eq_true, decide_eq_true_eq, h.waits, eq_comm]
  have hquiet : ∀ a b, a ≠ b → b ∈ q.ready → Bypass a b (.addStream id :: es) q := by
    intro a b hne hb
    refine (h.bypass a b hne hb).quiet ?_ (by simp) rfl
    rw [beginsWait, (h.waits b).2 hb, Bool.not_true, Bool.and_false]
  unfold BatchQueue.add
  split
  next hm =>
    refine ⟨h.nodup, h.left, fun b => ?_, hquiet⟩
    rw [hwaits]
    exact ⟨fun hb => hb.elim (· ▸ hm) fun hb => hb, .inr⟩
  next hm =>
  -- The wait of `id` begins; nothing was reported in it.
  have hnew : ∀ a q', q'.left ≤ kBatchWriteSize → Bypass a id (.addStream id :: es) q' := by
    intro a q' hleft
    have hbegins : beginsWait id es (.addStream id) = true := by
      simp [beginsWait, Bool.eq_false_iff.2 fun hw => hm ((h.waits id).1 hw)]
    have hr : reported false a id (.addStream id :: es) = 0 := by rw [reported, if_pos hbegins]
    refine ⟨?_, fun _ => .inr ?_, fun _ => .inl hr⟩
    · rw [hr]
      exact Nat.lt_add_right _ kBatchWriteSize_pos
    · rwa [hr, Nat.zero_add]
  split
  next hf =>
    refine ⟨nodup_cons.2 ⟨hm, h.nodup⟩, h.left, fun b => by rw [hwaits, mem_cons], fun a b hne hb => ?_⟩
    rcases mem_cons.1 hb with rfl | hb
    · exact hnew a _ h.left
    · have hbp := hquiet a b hne hb
      refine ⟨hbp.turn, hbp.latched, fun ha => ?_⟩
      rcases ha.2 with rfl | ha
      · have hlatched := hbp.latched hf.1.symm
        exact .inr ⟨rfl, hf.1.symm, by omega⟩
      · exact (hbp.ahead ha).imp_right fun hl => absurd (hf.1.trans hl.2.1 ▸ ha.mem) hm
  · refine ⟨?_, h.left, fun b => ?_, fun a b hne hb => ?_⟩
    · exact nodup_append.2 ⟨h.nodup, nodup_singleton _, fun x hx y hy he => hm (mem_singleton.1 hy ▸ he ▸ hx)⟩
    · rw [hwaits, mem_append, mem_singleton, or_comm]
    · rcases mem_append.1 hb with hb | hb
      · have hbp := hquiet a b hne hb
        refine ⟨hbp.turn, hbp.latched, fun ha => (hbp.ahead (ha.of_append hb)).imp_right fun hl => ⟨?_, hl.2⟩⟩
        rw [head?_append, hl.1]
        rfl
      · obtain rfl := mem_singleton.1 hb
        exact hnew a _ h.left

theorem Fair.popped (h : Fair es q) {rest : List Nat} (hq : q.ready = id :: rest) :
    Fair (.popFront id :: es) (q.popped id rest) := by
  have hn := h.nodup
  rw [hq] at hn
  have hready := q.ready_popped id rest
  refine ⟨?_, ?_, fun b => ?_, fun a b hne hb => ?_⟩
  · rw [hready]
    exact (nodup_cons.1 hn).2
  · have := h.left
    unfold BatchQueue.popped
    split
    · exact this
    · split
      · exact this
      · exact le_rfl
  · rw [hready, QuicWriteBlockedList.waits, Bool.and_eq_true, h.waits, hq, decide_eq_true_eq, mem_cons]
    constructor
    · rintro ⟨hne, rfl | hb⟩
      · exact absurd rfl hne
      · exact hb
    · intro hb
      exact ⟨fun he => (nodup_cons.1 hn).1 (he ▸ hb), .inr hb⟩
  rw [hready] at hb
  have hid : id ≠ b := fun he => (nodup_cons.1 hn).1 (he ▸ hb)
  have hbp := h.bypass a b hne (hq ▸ mem_cons_of_mem _ hb)
  have hw : beginsWait b es (.popFront id) = false := by simp [beginsWait]
  have hpopped : q.popped id rest = if q.latch = id then { q with ready := rest } else ⟨rest, id, kBatchWriteSize⟩ := by
    rw [BatchQueue.popped, if_neg (ne_nil_of_mem hb)]
  have hlatch : (q.popped id rest).latch = id := by
    rw [hpopped]
    split
    · assumption
    · rfl
  by_cases ha : id = a
  · -- The turn of `a` begins, with all that it has reported before it.
    subst ha
    have hr : reported false id b (.popFront id :: es) = reported false id b es := by
      rw [reported_cons _ hw, bytesOf, Nat.zero_add]
    have hahead := hbp.ahead (hq ▸ ⟨hid, .inl rfl⟩)
    refine ⟨?_, fun _ => ?_, fun ha => ?_⟩
    · rw [hr]
      apply Nat.lt_add_right
      rcases hahead with h0 | hl
      · rw [h0]
        exact kBatchWriteSize_pos
      · exact hl.2.2
    · rw [hr, hpopped]
      split
      next hl => exact hbp.latched hl
      next hl =>
        rcases hahead with h0 | hl'
        · rw [h0]
          exact .inr (Nat.zero_add _).le
        · exact absurd hl'.2.1 hl
    · rw [hready] at ha
      exact absurd ha.mem (nodup_cons.1 hn).1
  · have hbp' := hbp.quiet hw (by simp [ha]) rfl
    refine ⟨hbp'.turn, fun hl => absurd (hlatch.symm.trans hl) ha, fun hah => ?_⟩
    rw [hready] at hah
    refine (hbp'.ahead (hq ▸ ⟨hid, .inr hah⟩)).imp_right fun hl => ?_
    rw [hq, head?_cons] at hl
    exact absurd (some.inj hl.1) ha

theorem Fair.wrote (h : Fair es q) (id bytes : Nat) :
    Fair (.updateBytesForStream id bytes :: es) (q.wrote id bytes) := by
  have hready : (q.wrote id bytes).ready = q.ready ∧ (q.wrote id bytes).latch = q.latch ∧
    (q.wrote id bytes).left ≤ q.left := by
    unfold BatchQueue.wrote
    split
    · exact ⟨rfl, rfl, Nat.sub_le _ _⟩
    · exact ⟨rfl, rfl, le_rfl⟩
  obtain ⟨hready, hlatch, hleft⟩ := hready
  refine ⟨hready ▸ h.nodup, hleft.trans h.left, fun b => hready ▸ h.waits b, fun a b hne hb => ?_⟩
  have hbp := h.bypass a b hne (hready ▸ hb)
  have hw : beginsWait b es (.updateBytesForStream id bytes) = false := by simp [beginsWait]
  by_cases ha : id = a ∧ a ∉ q.ready
  · obtain ⟨rfl, hoff⟩ := ha
    have hbytes : bytesOf false id es (.updateBytesForStream id bytes) = bytes := by
      rw [bytesOf, Bool.eq_false_iff.2 fun hw => hoff ((h.waits id).1 hw), if_pos ⟨rfl, rfl⟩]
    have hr := reported_cons (a := id) _ hw false
    have hl := lastTurn_cons (a := id) _ hw (by simp)
    rw [hbytes] at hr hl
    refine ⟨by have := hbp.turn; omega, fun hlt => ?_, fun hah => absurd (hready ▸ hah.mem) hoff⟩
    rw [hlatch] at hlt
    have hbudget := hbp.latched hlt
    rw [hr, BatchQueue.wrote, if_pos hlt]
    dsimp only
    omega
  · have h0 : bytesOf false a es (.updateBytesForStream id bytes) = 0 := by
      rw [bytesOf, if_neg]
      rintro ⟨rfl, hoff⟩
      rw [Bool.false_or, Bool.not_eq_true'] at hoff
      exact ha ⟨rfl, fun hm => by rw [(h.waits id).2 hm] at hoff; cases hoff⟩
    have hbp' := hbp.quiet hw (by simp) h0
    refine ⟨hbp'.turn, fun hl => ?_, fun hah => ?_⟩
    · have := hbp'.latched (hlatch ▸ hl)
      omega
    · rw [hready] at hah ⊢
      rw [hlatch]
      exact hbp'.ahead hah

theorem Fair.remove (h : Fair es q) (id : Nat) : Fair (.unregisterStream id :: es) (q.remove id) := by
  refine ⟨h.nodup.erase id, h.left, fun b => ?_, fun a b hne hb => ?_⟩
  · rw [QuicWriteBlockedList.waits, Bool.and_eq_true, h.waits, decide_eq_true_eq, BatchQueue.remove,
      h.nodup.mem_erase_iff]
    exact and_congr_left' ne_comm
  · obtain ⟨hid, hb⟩ := h.nodup.mem_erase_iff.1 hb
    have hbp := (h.bypass a b hne hb).quiet (e := .unregisterStream id) (by simp [beginsWait]) (by simp) rfl
    refine ⟨hbp.turn, hbp.latched, fun ha => (hbp.ahead (ha.of_erase (Ne.symm hid))).imp_right fun hl => ⟨?_, hl.2⟩⟩
    obtain ⟨rest, hrest⟩ := head?_eq_some_iff.1 hl.1
    rw [BatchQueue.remove, hrest, erase_cons_tail]
    · rfl
    · rw [beq_iff_eq]
      exact (h.nodup.mem_erase_iff.1 ha.mem).1

def Inv (u : Fin 8) (es : List Ev) (t : Tunnels) : Prop := ∃ q, Serves u t.list q ∧ Fair es.reverse q

variable {u : Fin 8}

theorem Inv.step {es : List Ev} {t t' : Tunnels} (h : Inv u es t) (hs : step u t e = some t') :
    Inv u (es ++ [e]) t' := by
  obtain ⟨q, hq, hf⟩ := h
  rw [Inv, reverse_append, reverse_singleton, singleton_append]
  cases e with
  | registerStream id incremental =>
    obtain ⟨hid, ⟨⟩⟩ := ite_none_right_eq_some.1 hs
    refine ⟨q, ?_, hf.register id incremental⟩
    exact { hq with lists := hq.lists.registerStream (isNone_iff_eq_none.1 hid) incremental }
  | unregisterStream id =>
    obtain ⟨hid, ⟨⟩⟩ := ite_none_right_eq_some.1 hs
    exact ⟨_, hq.unregisterStream hf.nodup id, hf.remove id⟩
  | addStream id =>
    obtain ⟨hid, ⟨⟩⟩ := ite_none_right_eq_some.1 hs
    exact ⟨_, hq.addStream hid, hf.add id⟩
  | popFront id =>
    obtain ⟨⟨hpos, hid⟩, ⟨⟩⟩ := ite_none_right_eq_some.1 hs
    rw [hq.numBlockedStreams] at hpos
    obtain ⟨x, rest, hready⟩ := exists_cons_of_length_pos hpos
    obtain ⟨hx, hserves⟩ := hq.popFront hready hf.nodup
    obtain rfl := hx.symm.trans hid
    exact ⟨_, hserves, hf.popped hready⟩
  | updateBytesForStream id bytes =>
    obtain ⟨-, ⟨⟩⟩ := ite_none_right_eq_some.1 hs
    exact ⟨_, hq.updateBytesForStream id bytes, hf.wrote id bytes⟩

theorem drains {ready : List Nat} {t : Tunnels} {q : BatchQueue} (hq : Serves u t.list q) (hready : q.ready = ready)
    (hn : ready.Nodup) :
    ∃ t', Lts.run (step u) t (ready.map .popFront) = some t' ∧ t'.list.numBlockedStreams = 0 := by
  induction ready generalizing t q with
  | nil => exact ⟨t, rfl, by rw [hq.numBlockedStreams, hready]; rfl⟩
  | cons id rest ih =>
    obtain ⟨hid, hserves⟩ := hq.popFront hready (hready ▸ hn)
    have hpos : 0 < t.list.numBlockedStreams := by
      rw [hq.numBlockedStreams, hready]
      exact Nat.zero_lt_succ _
    have hstep : step u t (.popFront id) = some { list := t.list.popFront.2, lastPopped := some id } :=
      if_pos ⟨hpos, hid⟩
    obtain ⟨t', hr, h0⟩ :=
      ih (t := { list := t.list.popFront.2, lastPopped := some id }) hserves (q.ready_popped id rest)
      (nodup_cons.1 hn).2
    exact ⟨t', by rw [map_cons, Lts.run, hstep]; exact hr, h0⟩

/-- **Bounded bypass.** While `b` waits, another stream reports less than 16000 bytes ahead of it in all its turns
but the last, not counting what it reports when it is back on the list. -/
theorem bypass_bounded {u : Fin 8} {es : List Ev} {t : Tunnels}
    (hr : Lts.run (QuicWriteBlockedList.step u) {} es = some t) :
    (∀ a b, a ≠ b → waits b es.reverse = true →
      reported false a b es.reverse < kBatchWriteSize + lastTurn a b es.reverse) ∧
    ∃ order : List Nat, order.Nodup ∧ (∀ b, b ∈ order ↔ waits b es.reverse = true) ∧
      t.list.numBlockedStreams = order.length ∧
      ∃ t', Lts.run (QuicWriteBlockedList.step u) t (order.map .popFront) = some t' ∧
        t'.list.numBlockedStreams = 0 := by
  have h0 : Inv u [] {} := by
    refine ⟨{}, ⟨rfl, ⟨rfl, rfl⟩, ⟨?_, rfl, nofun, nofun⟩, rfl, rfl, .inr ⟨rfl, rfl, rfl, rfl⟩⟩,
      ⟨nodup_nil, Nat.zero_le _, fun b => by simp [waits], nofun⟩⟩
    exact (update_eq_self u _).symm
  obtain ⟨q, hq, hf⟩ : Inv u es t := Lts.run_hist (fun _ _ _ _ h hs => h.step hs) h0 hr
  exact ⟨fun a b hne hb => (hf.bypass a b hne ((hf.waits b).1 hb)).turn, q.ready, hf.nodup, fun b => (hf.waits b).symm,
    hq.numBlockedStreams, drains hq rfl hf.nodup⟩

def batch : List Ev :=
  [.registerStream 4 true, .registerStream 8 true, .addStream 4, .addStream 8, .popFront 4,
    .updateBytesForStream 4 9000,
   .updateBytesForStream 4 6999, .addStream 4, .popFront 4, .updateBytesForStream 4 500000, .addStream 4]

theorem bypass_bounded_batch : ∃ t, Lts.run (QuicWriteBlockedList.step 3) {} batch = some t ∧
    reported false 4 8 batch.reverse = 515999 ∧ lastTurn 4 8 batch.reverse = 500000 ∧
      515999 < kBatchWriteSize + 500000 ∧
    ∃ order : List Nat, order.Nodup ∧ t.list.numBlockedStreams = order.length := by
  have hr : Lts.run (QuicWriteBlockedList.step 3) {} batch = some _ := rfl
  obtain ⟨hb, order, hn, -, hl, -⟩ := bypass_bounded hr
  exact ⟨_, hr, rfl, rfl, hb 4 8 (by decide) rfl, order, hn, hl⟩

def addedEarly : List Ev :=
  [.registerStream 4 true, .registerStream 8 true, .addStream 4, .addStream 8, .popFront 4, .addStream 4,
   .updateBytesForStream 4 30000, .popFront 4, .updateBytesForStream 4 1]

def threeReports : List Ev :=
  [.registerStream 4 true, .registerStream 8 true, .addStream 4, .addStream 8, .popFront 4,
    .updateBytesForStream 4 15000,
   .updateBytesForStream 4 15000, .updateBytesForStream 4 15000]

/-- The bound does not hold with the last write in place of the last turn. -/
theorem bypass_exceeds_lastWrite :
    (∃ t, Lts.run (QuicWriteBlockedList.step 3) {} addedEarly = some t ∧ waits 8 addedEarly.reverse = true ∧
      addedEarly.getLast? = some (.updateBytesForStream 4 1) ∧
        ¬ reported true 4 8 addedEarly.reverse < kBatchWriteSize + 1) ∧
    ∃ t, Lts.run (QuicWriteBlockedList.step 3) {} threeReports = some t ∧ waits 8 threeReports.reverse = true ∧
      threeReports.getLast? = some (.updateBytesForStream 4 15000) ∧
      ¬ reported true 4 8 threeReports.reverse < kBatchWriteSize + 15000 :=
  ⟨⟨_, rfl, by decide, rfl, by decide⟩, _, rfl, by decide, rfl, by decide⟩

end QuicWriteBlockedList

end Quictun
