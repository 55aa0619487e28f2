import Mathlib.Algebra.Group.Nat.Defs
import Mathlib.Data.List.Basic
import Mathlib.Data.List.TakeWhile
import Quictun.FlatMap
import Quictun.Run

/-!
# The control frames of a connection

`QuicControlFrameManager`: the frames that are not stream data, each kept until it is
acknowledged. The queue holds the frames from `least_unacked_` on, the id of an acknowledged
one set to 0; those from `least_unsent_` on have not been sent yet. A pass is given by the
number of frames the connection takes. Ids are `uint32_t`, and 0 is none.

The errors are the ones reported to the session, and an index outside of the queue.
-/

namespace Quictun

open List Option

inductive QuicRstStreamErrorCode
  | streamCancelled | badApplicationPayload
deriving DecidableEq

inductive QuicFrame
  | rstStream (streamId : Nat) (error : QuicRstStreamErrorCode) (byteOffset : Nat)
  | stopSending (streamId : Nat) (error : QuicRstStreamErrorCode)
  /-- Without a stream id, the window of the connection. -/
  | windowUpdate (streamId : Option Nat) (maxData : Nat)
  | maxStreams (streamCount : Nat)
  | resetStreamAt (streamId error finalOffset reliableOffset : Nat)
  | goAway (error lastGoodStreamId : Nat) (reason : String)
  | blocked (streamId : Option Nat) (offset : Nat)
  | streamsBlocked (streamCount : Nat) (unidirectional : Bool)
  | handshakeDone
  /-- Its sequence number is the id of the control frame. -/
  | ackFrequency (ackElicitingThreshold requestedMaxAckDelay reorderingThreshold : Nat)
  | newConnectionId (connectionId : List Nat) (sequenceNumber retirePriorTo : Nat) (statelessResetToken : List Nat)
  | retireConnectionId (sequenceNumber : Nat)
  | newToken (token : List Nat)
deriving DecidableEq

structure ControlFrame where
  controlFrameId : Nat
  frame : QuicFrame
deriving DecidableEq

inductive ControlFrameError
  | tooManyBufferedControlFrames | sentOutOfOrder | ackedUnsent | lostUnsent | outOfRange
deriving DecidableEq

def kInvalidControlFrameId : Nat := 0

/-- `++id`. -/
def nextControlFrameId (id : Nat) : Nat := (id + 1) % 2 ^ 32

def kMaxNumControlFrames : Nat := 1000

structure QuicControlFrameManager where
  controlFrames : List ControlFrame := []
  lastControlFrameId : Nat := kInvalidControlFrameId
  leastUnacked : Nat := 1
  leastUnsent : Nat := 1
  pendingRetransmissions : List Nat := []
  windowUpdateFrames : FlatMap (Option Nat) Nat := ∅
  numBufferedMaxStreamFrames : Nat := 0
  /-- What the connection has taken so far, the last one first (history only). -/
  sent : List ControlFrame := []

namespace QuicControlFrameManager

abbrev Result := Except ControlFrameError

section
variable (m : QuicControlFrameManager)

-- `size()` is a `size_t`, so this sum does not wrap
def hasBufferedFrames : Bool :=
  m.leastUnsent < m.leastUnacked + m.controlFrames.length

/-- `id - least_unacked_`. -/
def index (id : Nat) : Nat := (id + (2 ^ 32 - m.leastUnacked)) % 2 ^ 32

variable (f : ControlFrame)

def isAcked : Bool := f.controlFrameId == kInvalidControlFrameId

/-! ## Acknowledgements and losses -/

def cleanUp : QuicControlFrameManager :=
  { m with
    controlFrames := m.controlFrames.dropWhile isAcked
    leastUnacked := (m.leastUnacked + (m.controlFrames.takeWhile isAcked).length) % 2 ^ 32 }

def markAcked (id : Nat) : QuicControlFrameManager :=
  { m with
    controlFrames := m.controlFrames.modify (m.index id) fun f => { f with controlFrameId := kInvalidControlFrameId }
    pendingRetransmissions := m.pendingRetransmissions.erase id }

def onControlFrameIdAcked (id : Nat) : Result (QuicControlFrameManager × Bool) :=
  if id = kInvalidControlFrameId then .ok (m, false)
  else if m.leastUnsent ≤ id then .error .ackedUnsent
  else if id < m.leastUnacked then .ok (m, false)
  else
    match m.controlFrames[m.index id]? with
    | none => .error .outOfRange
    | some f => if isAcked f then .ok (m, false) else .ok ((m.markAcked id).cleanUp, true)

def forgetAcked : QuicControlFrameManager :=
  match f.frame with
  | .windowUpdate sid _ =>
    if m.windowUpdateFrames.lookup sid = some f.controlFrameId then
      { m with windowUpdateFrames := m.windowUpdateFrames.erase sid }
    else m
  | .maxStreams _ => { m with numBufferedMaxStreamFrames := m.numBufferedMaxStreamFrames - 1 }
  | _ => m

def onControlFrameAcked : Result QuicControlFrameManager := do
  let r ← m.onControlFrameIdAcked f.controlFrameId
  if r.2 then return r.1.forgetAcked f else return r.1

def onControlFrameLost : Result QuicControlFrameManager :=
  if f.controlFrameId = kInvalidControlFrameId then .ok m
  else if m.leastUnsent ≤ f.controlFrameId then .error .lostUnsent
  else if f.controlFrameId < m.leastUnacked then .ok m
  else
    match m.controlFrames[m.index f.controlFrameId]? with
    | none => .error .outOfRange
    | some g =>
      if isAcked g || m.pendingRetransmissions.contains f.controlFrameId then .ok m
      else .ok { m with pendingRetransmissions := m.pendingRetransmissions ++ [f.controlFrameId] }

/-! ## Writing -/

-- a newer WINDOW_UPDATE of the same stream counts as an acknowledgement of the older one
def noteWindowUpdate : Result QuicControlFrameManager :=
  match f.frame with
  | .windowUpdate sid _ => do
    let m' ← match m.windowUpdateFrames.lookup sid with
      | some id => if id < f.controlFrameId then (m.onControlFrameIdAcked id).map (·.1) else .ok m
      | none => .ok m
    return { m' with windowUpdateFrames := m'.windowUpdateFrames.insert sid f.controlFrameId }
  | _ => .ok m

def onControlFrameSent : Result QuicControlFrameManager :=
  if f.controlFrameId = kInvalidControlFrameId then .ok m
  else do
    let m' ← m.noteWindowUpdate f
    if m'.pendingRetransmissions.contains f.controlFrameId then
      return { m' with pendingRetransmissions := m'.pendingRetransmissions.erase f.controlFrameId }
    else if m'.leastUnsent < f.controlFrameId then throw .sentOutOfOrder
    else return { m' with leastUnsent := nextControlFrameId m'.leastUnsent }

def written : Result QuicControlFrameManager := do
  let m' ← m.onControlFrameSent f
  return { m' with sent := f :: m'.sent }

def frameAt (id : Nat) : Result (Option ControlFrame) :=
  match m.controlFrames[m.index id]? with
  | none => .error .outOfRange
  | some f => .ok (some f)

def nextBuffered : Result (Option ControlFrame) :=
  if m.hasBufferedFrames then m.frameAt m.leastUnsent else .ok none

def nextPendingRetransmission : Result (Option ControlFrame) :=
  match m.pendingRetransmissions with
  | [] => .ok none
  | id :: _ => m.frameAt id

/-- The loop of both passes. The frame that the connection does not take any more has been looked up, too. -/
def writeFrames (next : QuicControlFrameManager → Result (Option ControlFrame)) :
    Nat → QuicControlFrameManager → Result QuicControlFrameManager
  | 0, m => do
    let _ ← next m
    return m
  | taken + 1, m => do
    match ← next m with
    | none => return m
    | some f => writeFrames next taken (← m.written f)

def writeBufferedFrames (taken : Nat) : Result QuicControlFrameManager :=
  writeFrames nextBuffered taken m

def writePendingRetransmission (taken : Nat) : Result QuicControlFrameManager :=
  writeFrames nextPendingRetransmission taken m

def onCanWrite (taken : Nat) : Result QuicControlFrameManager :=
  if m.pendingRetransmissions.isEmpty then m.writeBufferedFrames taken else m.writePendingRetransmission taken

def countMaxStreams : QuicFrame → QuicControlFrameManager
  | .maxStreams _ => { m with numBufferedMaxStreamFrames := m.numBufferedMaxStreamFrames + 1 }
  | _ => m

def enqueue (frame : QuicFrame) : QuicControlFrameManager :=
  { m with
    controlFrames := m.controlFrames ++ [⟨nextControlFrameId m.lastControlFrameId, frame⟩]
    lastControlFrameId := nextControlFrameId m.lastControlFrameId }

def writeOrBuffer (frame : QuicFrame) (taken : Nat) : Result QuicControlFrameManager :=
  if kMaxNumControlFrames < (m.enqueue frame).controlFrames.length then .error .tooManyBufferedControlFrames
  else if m.hasBufferedFrames then .ok ((m.enqueue frame).countMaxStreams frame)
  else do return (← (m.enqueue frame).writeBufferedFrames taken).countMaxStreams frame

end

/-! ## Runs -/

inductive Call
  | writeOrBuffer (frame : QuicFrame) (taken : Nat)
  | onCanWrite (taken : Nat)
  | acked (f : ControlFrame)
  | lost (f : ControlFrame)
deriving DecidableEq

def step (m : QuicControlFrameManager) : Call → Option QuicControlFrameManager
  | .writeOrBuffer frame taken => (m.writeOrBuffer frame taken).toOption
  | .onCanWrite taken => (m.onCanWrite taken).toOption
  | .acked f => if f ∈ m.sent then (m.onControlFrameAcked f).toOption else none
  | .lost f => if f ∈ m.sent then (m.onControlFrameLost f).toOption else none

/-- For a frame to be sent and `least_unsent_` to go on behind it. -/
def hasId (m : QuicControlFrameManager) : Call → Prop
  | .writeOrBuffer _ _ => m.lastControlFrameId + 2 < 2 ^ 32
  | _ => True

/-! ## Between two calls -/

structure Valid (m : QuicControlFrameManager) : Prop where
  ids : ∀ i f, m.controlFrames[i]? = some f → f.controlFrameId = 0 ∨ f.controlFrameId = m.leastUnacked + i
  pos : 0 < m.leastUnacked
  leastUnacked_le : m.leastUnacked ≤ m.leastUnsent
  leastUnsent_le : m.leastUnsent ≤ m.leastUnacked + m.controlFrames.length
  last : m.lastControlFrameId + 1 = m.leastUnacked + m.controlFrames.length
  bounded : m.lastControlFrameId + 1 < 2 ^ 32
  unsent : ∀ i f, m.controlFrames[i]? = some f → m.leastUnsent ≤ m.leastUnacked + i → f.controlFrameId ≠ 0
  pendingNodup : m.pendingRetransmissions.Nodup
  pending : ∀ id ∈ m.pendingRetransmissions, m.leastUnacked ≤ id ∧ id < m.leastUnsent ∧
    ∃ f, m.controlFrames[id - m.leastUnacked]? = some f ∧ f.controlFrameId = id
  windows : ∀ sid id, m.windowUpdateFrames.lookup sid = some id → id < m.leastUnsent
  sentIds : ∀ f ∈ m.sent, f.controlFrameId < m.leastUnsent

theorem valid_init : Valid {} where
  ids := by simp
  pos := by decide
  leastUnacked_le := by decide
  leastUnsent_le := by decide
  last := by decide
  bounded := by decide
  unsent := by simp
  pendingNodup := by simp
  pending := by simp
  windows := by simp
  sentIds := by simp

theorem isAcked_iff {f : ControlFrame} : isAcked f = true ↔ f.controlFrameId = 0 := by
  simp [isAcked, kInvalidControlFrameId]

theorem getElem?_dropWhile {α : Type*} (p : α → Bool) : ∀ (l : List α) (i : Nat),
    (l.dropWhile p)[i]? = l[(l.takeWhile p).length + i]?
  | [], i => by simp
  | a :: l, i => by
    rw [dropWhile_cons, takeWhile_cons]
    split
    · rw [getElem?_dropWhile p l i, length_cons, Nat.add_right_comm, getElem?_cons_succ]
    · simp

section
variable {m : QuicControlFrameManager}

variable {f : ControlFrame} {id : Nat}

theorem index_eq (h1 : m.leastUnacked ≤ id) (h2 : id < 2 ^ 32) : m.index id = id - m.leastUnacked := by
  unfold index
  omega

theorem Valid.lt (h : Valid m) (hid : id < m.leastUnsent) : id < 2 ^ 32 := by
  have := h.leastUnsent_le
  have := h.last
  have := h.bounded
  omega

theorem takeWhile_le_of_not_acked {i : Nat} (hf : m.controlFrames[i]? = some f)
    (h0 : f.controlFrameId ≠ 0) : (m.controlFrames.takeWhile isAcked).length ≤ i := by
  by_contra hi
  have hlt : i < (m.controlFrames.takeWhile isAcked).length := by omega
  have hp : m.controlFrames.takeWhile isAcked <+: m.controlFrames := takeWhile_prefix isAcked
  have hm := mem_takeWhile_imp (getElem_mem hlt)
  obtain ⟨_, hf'⟩ := List.getElem?_eq_some_iff.1 hf
  rw [hp.getElem hlt, hf'] at hm
  exact h0 (isAcked_iff.1 hm)

theorem length_cleanUp : (m.controlFrames.takeWhile isAcked).length + m.cleanUp.controlFrames.length =
    m.controlFrames.length := by
  rw [cleanUp, ← length_append, takeWhile_append_dropWhile]

theorem Valid.leastUnacked_cleanUp (h : Valid m) :
    m.cleanUp.leastUnacked = m.leastUnacked + (m.controlFrames.takeWhile isAcked).length := by
  have := length_cleanUp (m := m)
  have := h.last
  have := h.bounded
  exact Nat.mod_eq_of_lt (by omega)

theorem getElem?_cleanUp (i : Nat) :
    m.cleanUp.controlFrames[i]? = m.controlFrames[(m.controlFrames.takeWhile isAcked).length + i]? :=
  getElem?_dropWhile ..

theorem Valid.cleanUp (h : Valid m) : Valid m.cleanUp := by
  have hlen := length_cleanUp (m := m)
  have hk := h.leastUnacked_cleanUp
  have hle := h.leastUnsent_le
  have hun := h.leastUnacked_le
  have hlast : m.cleanUp.lastControlFrameId + 1 = _ := h.last
  -- the first unsent frame, if there is one, stops the clean-up
  have hstop : m.leastUnacked + (m.controlFrames.takeWhile isAcked).length ≤ m.leastUnsent := by
    by_contra hc
    have hi : m.leastUnsent - m.leastUnacked < m.controlFrames.length := by omega
    have hf := getElem?_eq_getElem hi
    have := takeWhile_le_of_not_acked hf (h.unsent _ _ hf (by omega))
    omega
  exact
    { h with
      ids := by
        intro i f hf
        rw [getElem?_cleanUp] at hf
        have := h.ids _ _ hf
        omega
      pos := hk ▸ Nat.add_pos_left h.pos _
      leastUnacked_le := hk ▸ hstop
      leastUnsent_le := by
        change m.leastUnsent ≤ _
        omega
      last := by omega
      unsent := by
        intro i f hf hi
        rw [getElem?_cleanUp] at hf
        rw [hk, Nat.add_assoc] at hi
        exact h.unsent _ _ hf hi
      pending := by
        intro id hid
        obtain ⟨h1, h2, f, hf, rfl⟩ := h.pending id hid
        have hi := takeWhile_le_of_not_acked hf (by have := h.pos; omega)
        rw [hk]
        refine ⟨by omega, h2, f, ?_, rfl⟩
        rw [getElem?_cleanUp, ← hf]
        congr 1
        omega }

theorem getElem?_markAcked {i : Nat} : (m.markAcked id).controlFrames[i]? =
    m.controlFrames[i]?.map fun f => if m.index id = i then { f with controlFrameId := 0 } else f :=
  getElem?_modify ..

theorem Valid.markAcked (h : Valid m) (h1 : m.leastUnacked ≤ id) (h2 : id < m.leastUnsent) :
    Valid (m.markAcked id) where
  ids := by
    intro i f hf
    rw [getElem?_markAcked] at hf
    obtain ⟨g, hg, rfl⟩ := map_eq_some_iff.1 hf
    split
    · exact .inl rfl
    · exact h.ids i g hg
  pos := h.pos
  leastUnacked_le := h.leastUnacked_le
  leastUnsent_le := by simpa only [QuicControlFrameManager.markAcked, length_modify] using h.leastUnsent_le
  last := by simpa only [QuicControlFrameManager.markAcked, length_modify] using h.last
  bounded := h.bounded
  unsent := by
    intro i f hf hi
    rw [getElem?_markAcked] at hf
    obtain ⟨g, hg, rfl⟩ := map_eq_some_iff.1 hf
    simp only [QuicControlFrameManager.markAcked] at hi
    rw [index_eq h1 (h.lt h2), if_neg (by omega)]
    exact h.unsent i g hg hi
  pendingNodup := h.pendingNodup.erase id
  pending := by
    intro j hj
    obtain ⟨hne, hj⟩ := (h.pendingNodup.mem_erase_iff).1 hj
    obtain ⟨hj1, hj2, f, hf, hfj⟩ := h.pending j hj
    refine ⟨hj1, hj2, f, ?_, hfj⟩
    rw [getElem?_markAcked, show (m.markAcked id).leastUnacked = m.leastUnacked from rfl, hf, map_some,
      index_eq h1 (h.lt h2), if_neg (by omega)]
  windows := h.windows
  sentIds := h.sentIds

structure Kept (m m' : QuicControlFrameManager) : Prop where
  valid : Valid m'
  leastUnsent : m'.leastUnsent = m.leastUnsent
  last : m'.lastControlFrameId = m.lastControlFrameId
  windows : m'.windowUpdateFrames = m.windowUpdateFrames

theorem Valid.onControlFrameIdAcked (h : Valid m) (hid : id < m.leastUnsent) :
    ∃ m' b, m.onControlFrameIdAcked id = .ok (m', b) ∧ Kept m m' ∧
      ∀ j ∈ m.pendingRetransmissions, j ≠ id → j ∈ m'.pendingRetransmissions := by
  have hkept : Kept m m := ⟨h, rfl, rfl, rfl⟩
  unfold QuicControlFrameManager.onControlFrameIdAcked
  rw [if_neg (by omega : ¬m.leastUnsent ≤ id)]
  by_cases h0 : id = kInvalidControlFrameId
  · exact ⟨m, false, if_pos h0, hkept, fun j hj _ => hj⟩
  by_cases h1 : id < m.leastUnacked
  · exact ⟨m, false, by rw [if_neg h0, if_pos h1], hkept, fun j hj _ => hj⟩
  rw [if_neg h0, if_neg h1]
  have hlt : m.index id < m.controlFrames.length := by
    have := h.leastUnsent_le
    rw [index_eq (not_lt.1 h1) (h.lt hid)]
    omega
  rw [getElem?_eq_getElem hlt]
  by_cases ha : isAcked m.controlFrames[m.index id]
  · exact ⟨m, false, if_pos ha, hkept, fun j hj _ => hj⟩
  · refine ⟨_, true, if_neg ha, ⟨(h.markAcked (by omega) hid).cleanUp, rfl, rfl, rfl⟩, ?_⟩
    intro j hj hne
    exact (h.pendingNodup.mem_erase_iff).2 ⟨hne, hj⟩

theorem Valid.noteWindowUpdate (h : Valid m) (f : ControlFrame) :
    ∃ m' w, m.noteWindowUpdate f = .ok { m' with windowUpdateFrames := w } ∧ Kept m m' ∧
      (f.controlFrameId ∈ m.pendingRetransmissions → f.controlFrameId ∈ m'.pendingRetransmissions) ∧
      ∀ sid id, w.lookup sid = some id → id < m.leastUnsent ∨ id = f.controlFrameId := by
  have hins (sid : Option Nat) : ∀ s id, (m.windowUpdateFrames.insert sid f.controlFrameId).lookup s = some id →
      id < m.leastUnsent ∨ id = f.controlFrameId := by
    intro s id hs
    rw [FlatMap.lookup_insert_eq] at hs
    split at hs
    · exact .inr (some.inj hs).symm
    · exact .inl (h.windows s id hs)
  have hkept : Kept m m := ⟨h, rfl, rfl, rfl⟩
  cases hf : f.frame with
  | windowUpdate sid _ =>
    cases hl : m.windowUpdateFrames.lookup sid with
    | none => exact ⟨m, _, by simp only [QuicControlFrameManager.noteWindowUpdate, hf, hl]; rfl, hkept, id, hins sid⟩
    | some old =>
      by_cases hlt : old < f.controlFrameId
      · obtain ⟨m', b, hm', hk, hp⟩ := h.onControlFrameIdAcked (h.windows sid old hl)
        refine ⟨m', _, ?_, hk, fun hj => hp _ hj (by omega), hk.windows ▸ hins sid⟩
        simp only [QuicControlFrameManager.noteWindowUpdate, hf, hl, if_pos hlt, hm']
        rfl
      · refine ⟨m, _, ?_, hkept, id, hins sid⟩
        simp only [QuicControlFrameManager.noteWindowUpdate, hf, hl, if_neg hlt]
        rfl
  | _ =>
    exact ⟨m, _, by simp only [QuicControlFrameManager.noteWindowUpdate, hf], hkept, id,
      fun sid id hs => .inl (h.windows sid id hs)⟩

/-- The first frame that has not been sent, or one to be sent again. -/
structure Due (m : QuicControlFrameManager) (f : ControlFrame) : Prop where
  queued : m.controlFrames[f.controlFrameId - m.leastUnacked]? = some f
  le : m.leastUnacked ≤ f.controlFrameId
  cause : f.controlFrameId = m.leastUnsent ∧ m.leastUnsent < m.leastUnacked + m.controlFrames.length ∨
    f.controlFrameId ∈ m.pendingRetransmissions

theorem Valid.nextBuffered (h : Valid m) : ∃ o, m.nextBuffered = .ok o ∧ ∀ f ∈ o, Due m f := by
  unfold QuicControlFrameManager.nextBuffered
  split
  next hb =>
    have hlt := of_decide_eq_true hb
    have hun := h.leastUnacked_le
    have hlast := h.last
    have hbound := h.bounded
    have hi : m.leastUnsent - m.leastUnacked < m.controlFrames.length := by omega
    have hf := getElem?_eq_getElem hi
    have h0 := h.unsent _ _ hf (by omega)
    have hid : m.controlFrames[m.leastUnsent - m.leastUnacked].controlFrameId = m.leastUnsent := by
      have := h.ids _ _ hf
      omega
    refine ⟨_, by rw [frameAt, index_eq hun (by omega), hf], ?_⟩
    rintro f ⟨⟩
    exact ⟨by rw [hid]; exact hf, by omega, .inl ⟨hid, hlt⟩⟩
  · exact ⟨none, rfl, by rintro f ⟨⟩⟩

theorem Valid.nextPendingRetransmission (h : Valid m) :
    ∃ o, m.nextPendingRetransmission = .ok o ∧ ∀ f ∈ o, Due m f := by
  unfold QuicControlFrameManager.nextPendingRetransmission
  split
  · exact ⟨none, rfl, by rintro f ⟨⟩⟩
  next id rest hp =>
    have hmem : id ∈ m.pendingRetransmissions := hp ▸ mem_cons_self
    obtain ⟨hle, hlt, f, hf, rfl⟩ := h.pending id hmem
    refine ⟨some f, by rw [frameAt, index_eq hle (h.lt hlt), hf], ?_⟩
    rintro g ⟨⟩
    exact ⟨hf, hle, .inr hmem⟩

theorem Valid.next_leastUnsent (h : Valid m) (hlt : m.leastUnsent < m.leastUnacked + m.controlFrames.length) :
    nextControlFrameId m.leastUnsent = m.leastUnsent + 1 := by
  have := h.last
  have := h.bounded
  exact Nat.mod_eq_of_lt (by omega)

theorem Valid.written (h : Valid m) (hf : Due m f) : ∃ m', m.written f = .ok m' ∧ Valid m' := by
  obtain ⟨m₁, w, hm1, hk, hp1, hw⟩ := h.noteWindowUpdate f
  have hv := hk.valid
  have hunsent := hk.leastUnsent
  have hpos : f.controlFrameId ≠ kInvalidControlFrameId := Nat.ne_of_gt (Nat.lt_of_lt_of_le h.pos hf.le)
  rcases hf.cause with ⟨hid, hlt⟩ | hp
  · have hp : ¬f.controlFrameId ∈ m₁.pendingRetransmissions := fun hp => by
      have := (hv.pending _ hp).2.1
      omega
    have hu : ¬m₁.leastUnsent < f.controlFrameId := by omega
    have hnext : nextControlFrameId m₁.leastUnsent = m₁.leastUnsent + 1 := hunsent ▸ h.next_leastUnsent hlt
    refine ⟨{ m₁ with windowUpdateFrames := w, leastUnsent := m₁.leastUnsent + 1, sent := f :: m₁.sent }, ?_, ?_⟩
    · simp [QuicControlFrameManager.written, onControlFrameSent, hpos, hm1, hp, hu, hnext, bind, pure, Except.bind,
        Except.pure]
    exact
      { hv with
        leastUnacked_le := Nat.le_succ_of_le hv.leastUnacked_le
        leastUnsent_le := by
          have := h.last
          have := hv.last
          have := hk.last
          dsimp only
          omega
        unsent := fun i g hg hi => hv.unsent i g hg (Nat.le_of_succ_le hi)
        pending := fun id hid =>
          ⟨(hv.pending id hid).1, Nat.lt_succ_of_lt (hv.pending id hid).2.1, (hv.pending id hid).2.2⟩
        windows := by
          intro sid id hs
          have := hw sid id hs
          dsimp only
          omega
        sentIds := forall_mem_cons.2 ⟨by dsimp only; omega, fun g hg => Nat.lt_succ_of_lt (hv.sentIds g hg)⟩ }
  · have hlt := (h.pending _ hp).2.1
    refine ⟨{ m₁ with
      windowUpdateFrames := w
      pendingRetransmissions := m₁.pendingRetransmissions.erase f.controlFrameId
      sent := f :: m₁.sent }, ?_, ?_⟩
    · simp [QuicControlFrameManager.written, onControlFrameSent, hpos, hm1, hp1 hp, bind, pure, Except.bind,
        Except.pure]
    exact
      { hv with
        pendingNodup := hv.pendingNodup.erase _
        pending := fun id hid => hv.pending id (mem_of_mem_erase hid)
        windows := by
          intro sid id hs
          have := hw sid id hs
          dsimp only
          omega
        sentIds := forall_mem_cons.2 ⟨hunsent ▸ hlt, hv.sentIds⟩ }

end

theorem Valid.writeFrames {next : QuicControlFrameManager → Result (Option ControlFrame)}
    (hnext : ∀ m, Valid m → ∃ o, next m = .ok o ∧ ∀ f ∈ o, Due m f) :
    ∀ (n : Nat) {m : QuicControlFrameManager}, Valid m → ∃ m', writeFrames next n m = .ok m' ∧ Valid m'
  | 0, m, h => by
    obtain ⟨o, ho, -⟩ := hnext m h
    exact ⟨m, by simp only [QuicControlFrameManager.writeFrames, ho, bind, Except.bind, pure, Except.pure], h⟩
  | n + 1, m, h => by
    obtain ⟨o, ho, hw⟩ := hnext m h
    cases o with
    | none => exact ⟨m, by simp only [QuicControlFrameManager.writeFrames, ho, bind, Except.bind, pure, Except.pure], h⟩
    | some f =>
      obtain ⟨m₁, hm1, hv⟩ := h.written (hw f rfl)
      obtain ⟨m₂, hm2, hv2⟩ := Valid.writeFrames hnext n hv
      exact ⟨m₂, by simp only [QuicControlFrameManager.writeFrames, ho, hm1, bind, Except.bind, hm2], hv2⟩

section
variable {m : QuicControlFrameManager} (h : Valid m)
include h

theorem Valid.onCanWrite (taken : Nat) : ∃ m', m.onCanWrite taken = .ok m' ∧ Valid m' := by
  unfold QuicControlFrameManager.onCanWrite
  split
  · exact Valid.writeFrames (fun _ h => h.nextBuffered) taken h
  · exact Valid.writeFrames (fun _ h => h.nextPendingRetransmission) taken h

omit h in
theorem nextControlFrameId_last (hid : m.lastControlFrameId + 2 < 2 ^ 32) :
    nextControlFrameId m.lastControlFrameId = m.lastControlFrameId + 1 := Nat.mod_eq_of_lt (Nat.lt_of_succ_lt hid)

theorem Valid.enqueue (hid : m.lastControlFrameId + 2 < 2 ^ 32) (frame : QuicFrame) : Valid (m.enqueue frame) := by
  have hlast := h.last
  have hnext := nextControlFrameId_last hid
  have hsplit {i : Nat} {f : ControlFrame} (hf : (m.enqueue frame).controlFrames[i]? = some f) :
      m.controlFrames[i]? = some f ∨ i = m.controlFrames.length ∧ f.controlFrameId = m.lastControlFrameId + 1 := by
    simp only [QuicControlFrameManager.enqueue, List.getElem?_append, List.getElem?_singleton] at hf
    split at hf
    · exact .inl hf
    · split at hf
      · exact .inr ⟨by omega, (some.inj hf) ▸ hnext⟩
      · cases hf
  exact
    { h with
      ids := by
        intro i f hf
        obtain hold | ⟨rfl, hid⟩ := hsplit hf
        · exact h.ids i f hold
        · exact .inr (hid.trans hlast)
      leastUnsent_le := by
        have := h.leastUnsent_le
        simp only [QuicControlFrameManager.enqueue, List.length_append]
        omega
      last := by
        simp only [QuicControlFrameManager.enqueue, List.length_append, List.length_singleton]
        omega
      bounded := by
        simp only [QuicControlFrameManager.enqueue]
        omega
      unsent := by
        intro i f hf hi
        obtain hold | ⟨rfl, hid⟩ := hsplit hf
        · exact h.unsent i f hold hi
        · omega
      pending := by
        intro id hid
        obtain ⟨h1, h2, f, hf, hfid⟩ := h.pending id hid
        refine ⟨h1, h2, f, ?_, hfid⟩
        have := (List.getElem?_eq_some_iff.1 hf).1
        rw [← hf]
        exact List.getElem?_append_left this }

theorem Valid.countMaxStreams (frame : QuicFrame) : Valid (m.countMaxStreams frame) := by
  cases frame with
  | maxStreams => exact { h with }
  | _ => exact h

theorem Valid.writeOrBuffer (frame : QuicFrame) (taken : Nat) (hroom : m.controlFrames.length < kMaxNumControlFrames)
    (hid : m.lastControlFrameId + 2 < 2 ^ 32) :
    ∃ m', m.writeOrBuffer frame taken = .ok m' ∧ Valid m' := by
  have hlen : ¬kMaxNumControlFrames < (m.enqueue frame).controlFrames.length := by
    simp only [QuicControlFrameManager.enqueue, length_append, length_singleton]
    omega
  unfold QuicControlFrameManager.writeOrBuffer
  rw [if_neg hlen]
  split
  · exact ⟨_, rfl, (h.enqueue hid frame).countMaxStreams frame⟩
  · obtain ⟨m₁, hm1, hv⟩ := Valid.writeFrames (fun _ h => h.nextBuffered) taken (h.enqueue hid frame)
    exact ⟨_, by simp only [writeBufferedFrames, hm1, bind, Except.bind, pure, Except.pure], hv.countMaxStreams frame⟩

theorem Valid.forgetAcked (f : ControlFrame) : Valid (m.forgetAcked f) := by
  unfold QuicControlFrameManager.forgetAcked
  split
  · split
    · refine { h with windows := ?_ }
      intro s id hs
      rw [FlatMap.lookup_erase_eq] at hs
      split at hs
      · cases hs
      · exact h.windows s id hs
    · exact h
  · exact { h with }
  · exact h

theorem Valid.onControlFrameAcked {f : ControlFrame} (hf : f ∈ m.sent) : ∃ m', m.onControlFrameAcked f = .ok m' ∧
    Valid m' := by
  obtain ⟨m₁, b, hm1, hk, -⟩ := h.onControlFrameIdAcked (h.sentIds f hf)
  unfold QuicControlFrameManager.onControlFrameAcked
  cases b with
  | true => exact ⟨_, by simp only [hm1, bind, Except.bind, if_true]; rfl, hk.valid.forgetAcked f⟩
  | false => exact ⟨m₁, by simp only [hm1, bind, Except.bind]; rfl, hk.valid⟩

theorem Valid.onControlFrameLost {f : ControlFrame} (hf : f ∈ m.sent) :
    ∃ m', m.onControlFrameLost f = .ok m' ∧ Valid m' := by
  have hlt := h.sentIds f hf
  unfold QuicControlFrameManager.onControlFrameLost
  rw [if_neg (by omega : ¬m.leastUnsent ≤ f.controlFrameId)]
  by_cases h0 : f.controlFrameId = kInvalidControlFrameId
  · exact ⟨m, if_pos h0, h⟩
  by_cases h1 : f.controlFrameId < m.leastUnacked
  · exact ⟨m, by rw [if_neg h0, if_pos h1], h⟩
  rw [if_neg h0, if_neg h1]
  have hi : f.controlFrameId - m.leastUnacked < m.controlFrames.length := by
    have := h.leastUnsent_le
    omega
  have hg := getElem?_eq_getElem hi
  rw [index_eq (not_lt.1 h1) (h.lt hlt), hg]
  dsimp only
  split
  · exact ⟨m, rfl, h⟩
  next hn =>
    rw [Bool.or_eq_true, not_or, isAcked_iff, contains_iff_mem] at hn
    refine ⟨_, rfl, { h with pendingNodup := ?_, pending := ?_ }⟩
    · exact nodup_append.2 ⟨h.pendingNodup, nodup_singleton _, by simpa using fun a ha =>
        (ne_of_mem_of_not_mem ha hn.2)⟩
    · intro id hid
      obtain hid | hid := mem_append.1 hid
      · exact h.pending id hid
      · obtain rfl := mem_singleton.1 hid
        have hid : (m.controlFrames[f.controlFrameId - m.leastUnacked]).controlFrameId = f.controlFrameId := by
          have := h.ids _ _ hg
          omega
        exact ⟨not_lt.1 h1, hlt, _, hg, hid⟩

end

theorem Valid.step {m m' : QuicControlFrameManager} {c : Call} (h : Valid m) (hid : m.hasId c)
    (hs : m.step c = some m') : Valid m' := by
  -- an enabled call that reports no error has the state its lemma speaks about
  have key {r : Result QuicControlFrameManager} (hr : r.toOption = some m')
      (hv : ∀ k, r = .ok k → Valid k) : Valid m' := by
    cases r with
    | error => cases hr
    | ok k => exact some.inj hr ▸ hv k rfl
  have ok {r : Result QuicControlFrameManager} (hr : ∃ k, r = .ok k ∧ Valid k) :
      ∀ k, r = .ok k → Valid k := by
    rintro k rfl
    obtain ⟨_, hk, hv⟩ := hr
    exact Except.ok.inj hk ▸ hv
  cases c with
  | writeOrBuffer frame taken =>
    refine key hs ?_
    by_cases hroom : m.controlFrames.length < kMaxNumControlFrames
    · exact ok (h.writeOrBuffer frame taken hroom hid)
    · intro k hk
      rw [QuicControlFrameManager.writeOrBuffer, if_pos] at hk
      · cases hk
      · simp only [QuicControlFrameManager.enqueue, length_append, length_singleton]
        omega
  | onCanWrite taken => exact key hs (ok (h.onCanWrite taken))
  | acked f =>
    simp only [QuicControlFrameManager.step] at hs
    split at hs
    next hf => exact key hs (ok (h.onControlFrameAcked hf))
    · cases hs
  | lost f =>
    simp only [QuicControlFrameManager.step] at hs
    split at hs
    next hf => exact key hs (ok (h.onControlFrameLost hf))
    · cases hs

theorem valid_of_run {cs : List Call} {m : QuicControlFrameManager} (hr : Lts.run step {} cs = some m)
    (hids : Lts.AllSteps step hasId {} cs) : Valid m :=
  Lts.run_inv_of (fun _ _ _ h hid hs => h.step hid hs) valid_init hids hr

end QuicControlFrameManager

end Quictun
