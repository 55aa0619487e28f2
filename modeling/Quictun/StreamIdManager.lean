import Mathlib.Algebra.Group.Nat.Defs
import Mathlib.Data.Finset.Image
import Mathlib.Data.Finset.Range
import Mathlib.Data.Finset.Lattice.Basic

/-!
# The stream ids of one direction

`QuicStreamIdManager` counts the streams of one directionality: the outgoing ones against
the limit the peer has sent, the incoming ones against the limit it has told the peer.
Ids and counts are 32 bits wide, ids of one kind are 4 apart. A stream may be heard of
before its predecessors; those are then available and cost nothing when they come.
-/

namespace Quictun

open Finset

inductive Perspective
  | isServer | isClient
deriving DecidableEq

def Perspective.invert : Perspective → Perspective
  | isServer => isClient
  | isClient => isServer

namespace QuicUtils

def invalidStreamId : Nat := 2 ^ 32 - 1
def streamIdDelta : Nat := 4

/-- The ids are 32 bits wide, so a quarter of them is of one kind. -/
def getMaxStreamCount : Nat := 2 ^ 30

def getFirstStreamId (unidirectional : Bool) : Perspective → Nat
  | .isClient => if unidirectional then 2 else 0
  | .isServer => if unidirectional then 3 else 1

def isServerInitiatedStreamId (id : Nat) : Bool := id != invalidStreamId && id % 2 != 0

def isOutgoingStreamId (id : Nat) (p : Perspective) : Bool :=
  (p == .isServer) == isServerInitiatedStreamId id

end QuicUtils

open QuicUtils

def add32 (a b : Nat) : Nat := (a + b) % 2 ^ 32
def sub32 (a b : Nat) : Nat := (a + 2 ^ 32 - b) % 2 ^ 32

def quicMaxStreamsWindowDivisor : Nat := 2

structure QuicStreamIdManager where
  unidirectional : Bool
  perspective : Perspective
  outgoingMaxStreams : Nat
  nextOutgoingStreamId : Nat := QuicUtils.getFirstStreamId unidirectional perspective
  outgoingStreamCount : Nat := 0
  incomingInitialMaxOpenStreams : Nat
  incomingActualMaxStreams : Nat := incomingInitialMaxOpenStreams
  incomingAdvertisedMaxStreams : Nat := incomingInitialMaxOpenStreams
  incomingStreamCount : Nat := 0
  availableStreams : Finset Nat := ∅
  largestPeerCreatedStreamId : Nat := QuicUtils.invalidStreamId
  stopIncreasingIncomingMaxStreams : Bool := false

namespace QuicStreamIdManager

section
variable (m : QuicStreamIdManager)

def getFirstIncomingStreamId : Nat :=
  QuicUtils.getFirstStreamId m.unidirectional m.perspective.invert

def sendMaxStreamsFrame : QuicStreamIdManager × Option Nat :=
  ({ m with incomingAdvertisedMaxStreams := m.incomingActualMaxStreams }, some m.incomingActualMaxStreams)

def onStreamsBlockedFrame (streamCount : Nat) (canSendMaxStreams : Bool) :
    Except String (QuicStreamIdManager × Option Nat) :=
  if streamCount > m.incomingAdvertisedMaxStreams then
    .error ("StreamsBlockedFrame's stream count " ++ toString streamCount ++ " exceeds incoming max stream " ++
      toString m.incomingAdvertisedMaxStreams)
  else if m.incomingAdvertisedMaxStreams = m.incomingActualMaxStreams then .ok (m, none)
  else if streamCount < m.incomingActualMaxStreams ∧ canSendMaxStreams = true then .ok m.sendMaxStreamsFrame
  else .ok (m, none)

def maybeAllowNewOutgoingStreams (maxOpenStreams : Nat) : QuicStreamIdManager × Bool :=
  if maxOpenStreams ≤ m.outgoingMaxStreams then (m, false)
  else ({ m with outgoingMaxStreams := min maxOpenStreams QuicUtils.getMaxStreamCount }, true)

def maybeSendMaxStreamsFrame (canSendMaxStreams : Bool) :
    QuicStreamIdManager × Option Nat :=
  if 0 < quicMaxStreamsWindowDivisor ∧ sub32 m.incomingAdvertisedMaxStreams m.incomingStreamCount >
      m.incomingInitialMaxOpenStreams / quicMaxStreamsWindowDivisor then (m, none)
  else if canSendMaxStreams = true ∧ m.incomingAdvertisedMaxStreams < m.incomingActualMaxStreams then
    m.sendMaxStreamsFrame
  else (m, none)

def onStreamClosed (streamId : Nat) (canSendMaxStreams : Bool) :
    QuicStreamIdManager × Option Nat :=
  if QuicUtils.isOutgoingStreamId streamId m.perspective then (m, none)
  else if m.incomingActualMaxStreams = QuicUtils.getMaxStreamCount then (m, none)
  else if m.stopIncreasingIncomingMaxStreams then (m, none)
  else
    maybeSendMaxStreamsFrame { m with incomingActualMaxStreams := add32 m.incomingActualMaxStreams 1 }
      canSendMaxStreams

def canOpenNextOutgoingStream : Bool := m.outgoingStreamCount < m.outgoingMaxStreams

def getNextOutgoingStreamId : Nat × QuicStreamIdManager :=
  (m.nextOutgoingStreamId, { m with
    nextOutgoingStreamId := add32 m.nextOutgoingStreamId QuicUtils.streamIdDelta
    outgoingStreamCount := add32 m.outgoingStreamCount 1 })

def leastNewStreamId : Nat :=
  if m.largestPeerCreatedStreamId = QuicUtils.invalidStreamId then m.getFirstIncomingStreamId
  else add32 m.largestPeerCreatedStreamId QuicUtils.streamIdDelta

def skippedIds (least streamId : Nat) : Finset Nat :=
  (range ((streamId - least + 3) / QuicUtils.streamIdDelta)).image fun i => least + QuicUtils.streamIdDelta * i

def maybeIncreaseLargestPeerStreamId (streamId : Nat) :
    Except String QuicStreamIdManager :=
  if streamId ∈ m.availableStreams then .ok { m with availableStreams := m.availableStreams.erase streamId }
  else
    let least := m.leastNewStreamId
    let increment := sub32 streamId least / QuicUtils.streamIdDelta + 1
    if add32 m.incomingStreamCount increment > m.incomingAdvertisedMaxStreams then
      .error ("Stream id " ++ toString streamId ++ " would exceed stream count limit " ++
        toString m.incomingAdvertisedMaxStreams)
    else .ok { m with
      availableStreams := m.availableStreams ∪ skippedIds least streamId
      incomingStreamCount := add32 m.incomingStreamCount increment
      largestPeerCreatedStreamId := streamId }

def isAvailableStream (id : Nat) : Bool :=
  if QuicUtils.isOutgoingStreamId id m.perspective then m.nextOutgoingStreamId ≤ id
  else m.largestPeerCreatedStreamId == QuicUtils.invalidStreamId || decide (m.largestPeerCreatedStreamId < id) ||
    decide (id ∈ m.availableStreams)

end

/-! ## Ids by their place -/

theorem getFirstStreamId_lt (u : Bool) (p : Perspective) : QuicUtils.getFirstStreamId u p < 4 := by
  cases u <;> cases p <;> decide

theorem add32_of_lt {a b : Nat} (h : a + b < 2 ^ 32) : add32 a b = a + b := Nat.mod_eq_of_lt h

theorem mem_skippedIds {least streamId id : Nat} : id ∈ skippedIds least streamId ↔ ∃ i, id = least + 4 * i ∧
    id < streamId := by
  simp only [skippedIds, streamIdDelta, mem_image, mem_range]
  constructor
  · rintro ⟨i, hi, rfl⟩
    exact ⟨i, rfl, by omega⟩
  · rintro ⟨i, rfl, hlt⟩
    exact ⟨i, by omega, rfl⟩

/-! ## The incoming side -/

structure Limits (m : QuicStreamIdManager) : Prop where
  count : m.incomingStreamCount ≤ m.incomingAdvertisedMaxStreams
  advertised : m.incomingAdvertisedMaxStreams ≤ m.incomingActualMaxStreams
  actual : m.incomingActualMaxStreams ≤ QuicUtils.getMaxStreamCount

/-- The incoming side after the ids in `heard` were accepted, in whatever order. -/
structure Incoming (heard : List Nat) (m : QuicStreamIdManager) : Prop extends Limits m where
  largest : m.largestPeerCreatedStreamId =
    if m.incomingStreamCount = 0 then QuicUtils.invalidStreamId
    else m.getFirstIncomingStreamId + 4 * (m.incomingStreamCount - 1)
  heard_lt : ∀ id ∈ heard, ∃ i < m.incomingStreamCount, id = m.getFirstIncomingStreamId + 4 * i
  top : 0 < m.incomingStreamCount → m.getFirstIncomingStreamId + 4 * (m.incomingStreamCount - 1) ∈ heard
  available : ∀ id, id ∈ m.availableStreams ↔
    (∃ i < m.incomingStreamCount, id = m.getFirstIncomingStreamId + 4 * i) ∧ id ∉ heard

variable {m : QuicStreamIdManager}

theorem Limits.count_le (h : Limits m) : m.incomingStreamCount ≤ 2 ^ 30 :=
  le_trans h.count (le_trans h.advertised h.actual)

variable {heard : List Nat}

theorem Incoming.leastNewStreamId_eq (h : Incoming heard m) :
    m.leastNewStreamId = (m.getFirstIncomingStreamId + 4 * m.incomingStreamCount) % 2 ^ 32 := by
  have hf := getFirstStreamId_lt m.unidirectional m.perspective.invert
  have hc := h.count_le
  have hl := h.largest
  have hinv : invalidStreamId = 2 ^ 32 - 1 := rfl
  change m.getFirstIncomingStreamId < 4 at hf
  rw [leastNewStreamId]
  split at hl
  next h0 =>
    rw [if_pos hl, h0]
    omega
  · split
    · omega
    · rw [hl, add32, streamIdDelta]
      omega

variable {i : Nat}

theorem Incoming.increment (h : Incoming heard m) (hi : i < 2 ^ 30) : add32 m.incomingStreamCount
        (sub32 (m.getFirstIncomingStreamId + 4 * i) m.leastNewStreamId / QuicUtils.streamIdDelta + 1) =
      if i < m.incomingStreamCount then 2 ^ 30 + i + 1 else i + 1 := by
  have hf := getFirstStreamId_lt m.unidirectional m.perspective.invert
  have hc := h.count_le
  rw [h.leastNewStreamId_eq]
  simp only [getFirstIncomingStreamId, add32, sub32, streamIdDelta] at hf ⊢
  split <;> omega

variable {id : Nat}

theorem Incoming.rejects_heard (h : Incoming heard m)
    (hid : id ∈ heard) : ∃ e, m.maybeIncreaseLargestPeerStreamId id = .error e := by
  obtain ⟨i, hi, rfl⟩ := h.heard_lt id hid
  have hc := h.count_le
  have hna : m.getFirstIncomingStreamId + 4 * i ∉ m.availableStreams := by
    rw [h.available]
    exact fun ha => ha.2 hid
  have hgt : add32 m.incomingStreamCount
      (sub32 (m.getFirstIncomingStreamId + 4 * i) m.leastNewStreamId / streamIdDelta + 1) >
      m.incomingAdvertisedMaxStreams := by
    have ha := h.advertised
    have ha' := h.actual
    rw [h.increment (by omega), if_pos hi]
    simp only [getMaxStreamCount] at ha'
    omega
  rw [maybeIncreaseLargestPeerStreamId, if_neg hna]
  exact ⟨_, if_pos hgt⟩

def SameLimits (m m' : QuicStreamIdManager) : Prop :=
  m'.unidirectional = m.unidirectional ∧ m'.perspective = m.perspective ∧
  m'.incomingAdvertisedMaxStreams = m.incomingAdvertisedMaxStreams ∧
  m'.incomingActualMaxStreams = m.incomingActualMaxStreams ∧
  m'.incomingInitialMaxOpenStreams = m.incomingInitialMaxOpenStreams ∧
  m'.stopIncreasingIncomingMaxStreams = m.stopIncreasingIncomingMaxStreams

theorem Incoming.accepts_available (h : Incoming heard m)
    (hid : id ∈ m.availableStreams) : ∃ m', m.maybeIncreaseLargestPeerStreamId id = .ok m' ∧
      Incoming (id :: heard) m' ∧ SameLimits m m' := by
  refine ⟨{ m with availableStreams := m.availableStreams.erase id }, if_pos hid, ?_, rfl, rfl, rfl, rfl, rfl, rfl⟩
  obtain ⟨hlt, hnew⟩ := (h.available id).1 hid
  refine { h with heard_lt := ?_, top := fun h0 => List.mem_cons_of_mem _ (h.top h0), available := ?_ }
  · intro k hk
    rcases List.mem_cons.1 hk with rfl | hk
    · exact hlt
    · exact h.heard_lt k hk
  · intro k
    simp only [mem_erase, h.available k, List.mem_cons, not_or]
    tauto

theorem Incoming.accepts_beyond (h : Incoming heard m)
    (hi : m.incomingStreamCount ≤ i) (hlim : i < m.incomingAdvertisedMaxStreams) :
    ∃ m', m.maybeIncreaseLargestPeerStreamId (m.getFirstIncomingStreamId + 4 * i) = .ok m' ∧
      Incoming ((m.getFirstIncomingStreamId + 4 * i) :: heard) m' ∧ SameLimits m m' := by
  have hmax : i < 2 ^ 30 := lt_of_lt_of_le hlim (le_trans h.advertised h.actual)
  have hf : m.getFirstIncomingStreamId < 4 := getFirstStreamId_lt _ _
  have hleast : m.leastNewStreamId = m.getFirstIncomingStreamId + 4 * m.incomingStreamCount := by
    rw [h.leastNewStreamId_eq]
    omega
  have hna : m.getFirstIncomingStreamId + 4 * i ∉ m.availableStreams := by
    rw [h.available]
    rintro ⟨⟨j, hj, hij⟩, -⟩
    omega
  have hcount := h.increment hmax
  rw [if_neg (not_lt.2 hi)] at hcount
  refine ⟨{ m with
    availableStreams := m.availableStreams ∪ skippedIds m.leastNewStreamId (m.getFirstIncomingStreamId + 4 * i)
    incomingStreamCount := i + 1
    largestPeerCreatedStreamId := m.getFirstIncomingStreamId + 4 * i }, ?_, ?_, rfl, rfl, rfl, rfl, rfl, rfl⟩
  · rw [maybeIncreaseLargestPeerStreamId, if_neg hna]
    simp only [hcount]
    exact if_neg (not_lt.2 hlim)
  · refine ⟨⟨hlim, h.advertised, h.actual⟩, ?_, ?_, fun _ => List.mem_cons_self, ?_⟩
    · rw [if_neg (Nat.succ_ne_zero i)]
      rfl
    · intro k hk
      rcases List.mem_cons.1 hk with rfl | hk
      · exact ⟨i, Nat.lt_succ_self i, rfl⟩
      · obtain ⟨j, hj, hk⟩ := h.heard_lt k hk
        exact ⟨j, Nat.lt_succ_of_lt (lt_of_lt_of_le hj hi), hk⟩
    · -- the ids below the new one are the counted ones and the skipped ones
      intro k
      simp only [mem_union, h.available k, mem_skippedIds, hleast, List.mem_cons, not_or]
      constructor
      · rintro (⟨⟨j, hj, rfl⟩, hn⟩ | ⟨j, rfl, hlt⟩)
        · exact ⟨⟨j, by omega, rfl⟩, by omega, hn⟩
        · refine ⟨⟨m.incomingStreamCount + j, by omega, by simp only [getFirstIncomingStreamId]; omega⟩, by omega, ?_⟩
          intro hh
          obtain ⟨j', hj', hk⟩ := h.heard_lt _ hh
          omega
      · rintro ⟨⟨j, hj, rfl⟩, hne, hn⟩
        by_cases hjc : j < m.incomingStreamCount
        · exact .inl ⟨⟨j, hjc, rfl⟩, hn⟩
        · refine .inr ⟨j - m.incomingStreamCount, ?_, ?_⟩
          · simp only [getFirstIncomingStreamId]
            omega
          · simp only [getFirstIncomingStreamId] at hne ⊢
            omega

theorem Incoming.accepts_new (h : Incoming heard m)
    (hnew : m.getFirstIncomingStreamId + 4 * i ∉ heard) (hlim : i < m.incomingAdvertisedMaxStreams) :
    ∃ m', m.maybeIncreaseLargestPeerStreamId (m.getFirstIncomingStreamId + 4 * i) = .ok m' ∧
      Incoming ((m.getFirstIncomingStreamId + 4 * i) :: heard) m' ∧ SameLimits m m' := by
  by_cases hi : i < m.incomingStreamCount
  · exact h.accepts_available ((h.available _).2 ⟨⟨i, hi, rfl⟩, hnew⟩)
  · exact h.accepts_beyond (Nat.le_of_not_lt hi) hlim

theorem Incoming.mem_available_iff (h : Incoming heard m) (id : Nat) : id ∈ m.availableStreams ↔
      id % 4 = m.getFirstIncomingStreamId ∧ (∃ largest ∈ heard, id < largest) ∧ id ∉ heard := by
  have hf : m.getFirstIncomingStreamId < 4 := getFirstStreamId_lt _ _
  rw [h.available]
  constructor
  · rintro ⟨⟨i, hi, rfl⟩, hn⟩
    refine ⟨by omega, ⟨_, h.top (by omega), ?_⟩, hn⟩
    have hne : i ≠ m.incomingStreamCount - 1 := by
      rintro rfl
      exact hn (h.top (by omega))
    omega
  · rintro ⟨hmod, ⟨l, hl, hlt⟩, hn⟩
    obtain ⟨j, hj, rfl⟩ := h.heard_lt l hl
    refine ⟨⟨id / 4, by omega, ?_⟩, hn⟩
    omega

/-! ## The limits -/

/-- A call that only moves the limits: they stay in order, never go down, and a frame that is
sent tells the limit advertised from then on. -/
structure Raises (m m' : QuicStreamIdManager) (frame : Option Nat) : Prop where
  incoming : ∀ heard, Incoming heard m → Incoming heard m'
  unidirectional : m'.unidirectional = m.unidirectional
  perspective : m'.perspective = m.perspective
  advertised : m.incomingAdvertisedMaxStreams ≤ m'.incomingAdvertisedMaxStreams
  frame : ∀ n ∈ frame, n = m'.incomingAdvertisedMaxStreams

theorem Raises.refl (m : QuicStreamIdManager) : Raises m m none :=
  ⟨fun _ h => h, rfl, rfl, le_rfl, nofun⟩

theorem raises_sendMaxStreamsFrame (h : Limits m) : Raises m m.sendMaxStreamsFrame.1 m.sendMaxStreamsFrame.2 := by
  refine ⟨fun heard hi => ?_, rfl, rfl, h.advertised, fun n hn => (Option.some.inj hn).symm⟩
  exact { hi with count := le_trans hi.count hi.advertised, advertised := le_rfl }

theorem raises_maybeSendMaxStreamsFrame (h : Limits m) (canSend : Bool) :
    Raises m (m.maybeSendMaxStreamsFrame canSend).1 (m.maybeSendMaxStreamsFrame canSend).2 := by
  rw [maybeSendMaxStreamsFrame]
  split
  · exact Raises.refl m
  split
  · exact raises_sendMaxStreamsFrame h
  · exact Raises.refl m

theorem raises_onStreamClosed (h : Limits m) (id : Nat) (canSend : Bool) :
    Raises m (m.onStreamClosed id canSend).1 (m.onStreamClosed id canSend).2 := by
  rw [onStreamClosed]
  split
  · exact Raises.refl m
  split
  · exact Raises.refl m
  split
  · exact Raises.refl m
  next hmax _ =>
    have hlt : m.incomingActualMaxStreams + 1 ≤ 2 ^ 30 := Nat.lt_of_le_of_ne h.actual hmax
    have hadd : add32 m.incomingActualMaxStreams 1 = m.incomingActualMaxStreams + 1 := add32_of_lt (by omega)
    rw [hadd]
    have hlim : ∀ {k : QuicStreamIdManager}, Limits k → k.incomingActualMaxStreams + 1 ≤ 2 ^ 30 →
        Limits { k with incomingActualMaxStreams := k.incomingActualMaxStreams + 1 } := by
      intro k hk hk'
      exact ⟨hk.count, Nat.le_succ_of_le hk.advertised, hk'⟩
    have hr := raises_maybeSendMaxStreamsFrame (hlim h hlt) canSend
    exact ⟨fun heard hi => hr.incoming heard { hi with toLimits := hlim hi.toLimits hlt }, hr.unidirectional,
      hr.perspective, hr.advertised, hr.frame⟩

theorem raises_onStreamsBlockedFrame (h : Limits m) {n : Nat} (hn : n ≤ m.incomingAdvertisedMaxStreams)
    (canSend : Bool) :
    ∃ r, m.onStreamsBlockedFrame n canSend = .ok r ∧ Raises m r.1 r.2 := by
  rw [onStreamsBlockedFrame, if_neg (not_lt.2 hn)]
  split
  · exact ⟨_, rfl, Raises.refl m⟩
  split
  · exact ⟨_, rfl, raises_sendMaxStreamsFrame h⟩
  · exact ⟨_, rfl, Raises.refl m⟩

/-! ## Ids that are taken -/

section
variable {m m' : QuicStreamIdManager} {id : Nat}

def IsIncoming (m : QuicStreamIdManager) (id : Nat) : Prop :=
  id % 4 = m.getFirstIncomingStreamId ∧ id < QuicUtils.invalidStreamId

instance (m : QuicStreamIdManager) (id : Nat) : Decidable (m.IsIncoming id) := inferInstanceAs (Decidable (_ ∧ _))

structure Tidy (m : QuicStreamIdManager) : Prop where
  available : ∀ k ∈ m.availableStreams, m.largestPeerCreatedStreamId ≠ QuicUtils.invalidStreamId ∧
    k < m.largestPeerCreatedStreamId
  largest : m.largestPeerCreatedStreamId ≠ QuicUtils.invalidStreamId → m.IsIncoming m.largestPeerCreatedStreamId

structure SameIds (m m' : QuicStreamIdManager) : Prop where
  unidirectional : m'.unidirectional = m.unidirectional
  perspective : m'.perspective = m.perspective
  available : m'.availableStreams = m.availableStreams
  largest : m'.largestPeerCreatedStreamId = m.largestPeerCreatedStreamId
  stop : m'.stopIncreasingIncomingMaxStreams = m.stopIncreasingIncomingMaxStreams

theorem SameIds.refl (m : QuicStreamIdManager) : SameIds m m := ⟨rfl, rfl, rfl, rfl, rfl⟩

theorem SameIds.trans {m'' : QuicStreamIdManager} (h1 : SameIds m m') (h2 : SameIds m' m'') : SameIds m m'' :=
  ⟨h2.unidirectional.trans h1.unidirectional, h2.perspective.trans h1.perspective, h2.available.trans h1.available,
    h2.largest.trans h1.largest, h2.stop.trans h1.stop⟩

theorem isIncoming_congr (hu : m'.unidirectional = m.unidirectional) (hp : m'.perspective = m.perspective) :
    m'.IsIncoming id ↔ m.IsIncoming id := by
  rw [IsIncoming, IsIncoming, getFirstIncomingStreamId, getFirstIncomingStreamId, hu, hp]

theorem SameIds.isIncoming (h : SameIds m m') : m'.IsIncoming id ↔ m.IsIncoming id :=
  isIncoming_congr h.unidirectional h.perspective

theorem IsIncoming.not_outgoing (h : m.IsIncoming id) : QuicUtils.isOutgoingStreamId id m.perspective = false := by
  obtain ⟨hmod, hlt⟩ := h
  have hne : id ≠ invalidStreamId := ne_of_lt hlt
  have hs : isServerInitiatedStreamId id = (id % 2 != 0) := by simp [isServerInitiatedStreamId, hne]
  rw [isOutgoingStreamId, hs]
  unfold getFirstIncomingStreamId at hmod
  cases hp : m.perspective with
  | isServer =>
    have heven : id % 2 = 0 := by
      rw [hp] at hmod
      cases hu : m.unidirectional <;> simp [hu, Perspective.invert, getFirstStreamId] at hmod <;> omega
    simp [heven]
  | isClient =>
    have hodd : id % 2 = 1 := by
      rw [hp] at hmod
      cases hu : m.unidirectional <;> simp [hu, Perspective.invert, getFirstStreamId] at hmod <;> omega
    simp [hodd]

theorem IsIncoming.isAvailableStream_eq_false (h : m.IsIncoming id) : m.isAvailableStream id = false ↔
    m.largestPeerCreatedStreamId ≠ QuicUtils.invalidStreamId ∧ id ≤ m.largestPeerCreatedStreamId ∧
      id ∉ m.availableStreams := by
  rw [isAvailableStream, h.not_outgoing, if_neg Bool.false_ne_true]
  simp [and_assoc]

theorem SameIds.isAvailableStream (h : SameIds m m') (hid : m.IsIncoming id) :
    m'.isAvailableStream id = m.isAvailableStream id := by
  rw [Bool.eq_iff_iff, ← not_iff_not, Bool.not_eq_true, Bool.not_eq_true,
    (h.isIncoming.2 hid).isAvailableStream_eq_false,
    hid.isAvailableStream_eq_false, h.largest, h.available]

theorem SameIds.tidy (h : SameIds m m') (ht : Tidy m) : Tidy m' := by
  constructor
  · rw [h.available, h.largest]
    exact ht.available
  · rw [h.largest]
    exact fun hl => h.isIncoming.2 (ht.largest hl)

theorem accept_eq (hok : m.maybeIncreaseLargestPeerStreamId id = .ok m') :
    m'.unidirectional = m.unidirectional ∧ m'.perspective = m.perspective ∧
      m'.stopIncreasingIncomingMaxStreams = m.stopIncreasingIncomingMaxStreams ∧
      m'.incomingActualMaxStreams = m.incomingActualMaxStreams ∧
      ((id ∈ m.availableStreams ∧ m'.availableStreams = m.availableStreams.erase id ∧
          m'.largestPeerCreatedStreamId = m.largestPeerCreatedStreamId) ∨
        (id ∉ m.availableStreams ∧ m'.availableStreams = m.availableStreams ∪ skippedIds m.leastNewStreamId id ∧
          m'.largestPeerCreatedStreamId = id)) := by
  unfold maybeIncreaseLargestPeerStreamId at hok
  split at hok
  next ha =>
    cases hok
    exact ⟨rfl, rfl, rfl, rfl, .inl ⟨ha, rfl, rfl⟩⟩
  next ha =>
    dsimp only at hok
    split at hok
    · cases hok
    · cases hok
      exact ⟨rfl, rfl, rfl, rfl, .inr ⟨ha, rfl, rfl⟩⟩

theorem Tidy.leastNewStreamId_gt (h : Tidy m) (hid : m.IsIncoming id)
    (hl : m.largestPeerCreatedStreamId ≠ QuicUtils.invalidStreamId) (hgt : m.largestPeerCreatedStreamId < id) :
    m.largestPeerCreatedStreamId < m.leastNewStreamId := by
  have hmod := (h.largest hl).1
  have hidm := hid.1
  have hidl := hid.2
  rw [leastNewStreamId, if_neg hl, add32_of_lt]
  · exact Nat.lt_add_of_pos_right (by decide)
  · simp only [streamIdDelta, invalidStreamId] at hidl ⊢
    omega

theorem Tidy.accept (h : Tidy m) (hid : m.IsIncoming id) (hav : m.isAvailableStream id = true)
    (hok : m.maybeIncreaseLargestPeerStreamId id = .ok m') :
    Tidy m' ∧ (∀ k, m'.IsIncoming k ↔ m.IsIncoming k) ∧ m'.isAvailableStream id = false ∧
      ∀ k, m.IsIncoming k → m.isAvailableStream k = false → m'.isAvailableStream k = false := by
  obtain ⟨hu, hp, -, -, hcase⟩ := accept_eq hok
  have hinc : ∀ k, m'.IsIncoming k ↔ m.IsIncoming k := fun k => isIncoming_congr hu hp
  have hne : id ≠ invalidStreamId := ne_of_lt hid.2
  rcases hcase with ⟨ha, hav', hl'⟩ | ⟨ha, hav', hl'⟩
  · obtain ⟨hl, hlt⟩ := h.available id ha
    refine ⟨⟨?_, ?_⟩, hinc, ?_, ?_⟩
    · intro k hk
      rw [hav'] at hk
      rw [hl']
      exact h.available k (mem_of_mem_erase hk)
    · rw [hl']
      exact fun hl => (hinc _).2 (h.largest hl)
    · rw [((hinc id).2 hid).isAvailableStream_eq_false, hl', hav']
      exact ⟨hl, le_of_lt hlt, notMem_erase id _⟩
    · intro k hk hkf
      obtain ⟨h1, h2, h3⟩ := hk.isAvailableStream_eq_false.1 hkf
      rw [((hinc k).2 hk).isAvailableStream_eq_false, hl', hav']
      exact ⟨h1, h2, fun hm => h3 (mem_of_mem_erase hm)⟩
  · -- the id is beyond the largest one, so nothing below that one is among the skipped ones
    have hbeyond : m.largestPeerCreatedStreamId = invalidStreamId ∨ m.largestPeerCreatedStreamId < id := by
      by_contra hn
      rw [not_or, not_lt] at hn
      rw [hid.isAvailableStream_eq_false.2 ⟨hn.1, hn.2, ha⟩] at hav
      cases hav
    have hskip : ∀ k ∈ m'.availableStreams, k < id := by
      intro k hk
      rw [hav'] at hk
      rcases mem_union.1 hk with hk | hk
      · obtain ⟨hl, hlt⟩ := h.available k hk
        exact lt_trans hlt (hbeyond.resolve_left hl)
      · obtain ⟨i, -, hlt⟩ := mem_skippedIds.1 hk
        exact hlt
    refine ⟨⟨?_, ?_⟩, hinc, ?_, ?_⟩
    · intro k hk
      rw [hl']
      exact ⟨hne, hskip k hk⟩
    · rw [hl']
      exact fun _ => (hinc id).2 hid
    · rw [((hinc id).2 hid).isAvailableStream_eq_false, hl']
      exact ⟨hne, le_rfl, fun hk => lt_irrefl _ (hskip id hk)⟩
    · intro k hk hkf
      obtain ⟨h1, h2, h3⟩ := hk.isAvailableStream_eq_false.1 hkf
      have hlt := hbeyond.resolve_left h1
      have hleast := h.leastNewStreamId_gt hid h1 hlt
      rw [((hinc k).2 hk).isAvailableStream_eq_false, hl', hav']
      refine ⟨hne, le_of_lt (lt_of_le_of_lt h2 hlt), fun hm => ?_⟩
      rcases mem_union.1 hm with hm | hm
      · exact h3 hm
      · obtain ⟨i, rfl, -⟩ := mem_skippedIds.1 hm
        omega

theorem sameIds_maybeSendMaxStreamsFrame (m : QuicStreamIdManager) (canSend : Bool) :
    SameIds m (m.maybeSendMaxStreamsFrame canSend).1 ∧
      (m.maybeSendMaxStreamsFrame canSend).1.incomingActualMaxStreams = m.incomingActualMaxStreams := by
  rw [maybeSendMaxStreamsFrame]
  split
  · exact ⟨.refl m, rfl⟩
  split
  · exact ⟨⟨rfl, rfl, rfl, rfl, rfl⟩, rfl⟩
  · exact ⟨.refl m, rfl⟩

theorem sameIds_onStreamClosed (m : QuicStreamIdManager) (id : Nat) (canSend : Bool) :
    SameIds m (m.onStreamClosed id canSend).1 := by
  rw [onStreamClosed]
  split
  · exact .refl m
  split
  · exact .refl m
  split
  · exact .refl m
  · exact { (sameIds_maybeSendMaxStreamsFrame _ canSend).1 with }

theorem sameIds_onStreamsBlockedFrame {n : Nat} {canSend : Bool} {r : QuicStreamIdManager × Option Nat}
    (h : m.onStreamsBlockedFrame n canSend = .ok r) :
    SameIds m r.1 ∧ r.1.incomingActualMaxStreams = m.incomingActualMaxStreams ∧
      ∀ heard, Incoming heard m → Incoming heard r.1 := by
  have hn : n ≤ m.incomingAdvertisedMaxStreams := by
    by_contra hgt
    rw [onStreamsBlockedFrame, if_pos (Nat.lt_of_not_le hgt)] at h
    cases h
  have hsame : SameIds m r.1 ∧ r.1.incomingActualMaxStreams = m.incomingActualMaxStreams := by
    rw [onStreamsBlockedFrame, if_neg (not_lt.2 hn)] at h
    split at h
    · cases h
      exact ⟨.refl m, rfl⟩
    split at h
    · cases h
      exact ⟨⟨rfl, rfl, rfl, rfl, rfl⟩, rfl⟩
    · cases h
      exact ⟨.refl m, rfl⟩
  refine ⟨hsame.1, hsame.2, fun heard hi => ?_⟩
  obtain ⟨r', hr', hraises⟩ := raises_onStreamsBlockedFrame hi.toLimits hn canSend
  obtain rfl : r' = r := Except.ok.inj (hr'.symm.trans h)
  exact hraises.incoming heard hi

theorem actual_onStreamClosed (hid : m.IsIncoming id) (hstop : m.stopIncreasingIncomingMaxStreams = false)
    (hlt : m.incomingActualMaxStreams < QuicUtils.getMaxStreamCount) (canSend : Bool) :
    (m.onStreamClosed id canSend).1.incomingActualMaxStreams = m.incomingActualMaxStreams + 1 := by
  have hadd : add32 m.incomingActualMaxStreams 1 = m.incomingActualMaxStreams + 1 := by
    apply add32_of_lt
    simp only [getMaxStreamCount] at hlt
    omega
  rw [onStreamClosed, hid.not_outgoing, if_neg Bool.false_ne_true, if_neg (ne_of_lt hlt), hstop,
    if_neg Bool.false_ne_true, hadd]
  exact (sameIds_maybeSendMaxStreamsFrame _ canSend).2

theorem Incoming.of_ok {heard : List Nat} (h : Incoming heard m) (hid : m.IsIncoming id) (hnew : id ∉ heard)
    (hok : m.maybeIncreaseLargestPeerStreamId id = .ok m') : Incoming (id :: heard) m' := by
  obtain ⟨hmod, hlt⟩ := hid
  have hf : m.getFirstIncomingStreamId < 4 := getFirstStreamId_lt _ _
  obtain ⟨i, rfl⟩ : ∃ i, id = m.getFirstIncomingStreamId + 4 * i := ⟨id / 4, by omega⟩
  have hi : i < 2 ^ 30 := by
    simp only [invalidStreamId] at hlt
    omega
  have hlim : i < m.incomingAdvertisedMaxStreams := by
    have hca := h.count
    by_contra hge
    have hna : m.getFirstIncomingStreamId + 4 * i ∉ m.availableStreams := by
      rw [h.available]
      rintro ⟨⟨j, hj, hij⟩, -⟩
      omega
    have hgt : add32 m.incomingStreamCount
        (sub32 (m.getFirstIncomingStreamId + 4 * i) m.leastNewStreamId / streamIdDelta + 1) >
        m.incomingAdvertisedMaxStreams := by
      rw [h.increment hi, if_neg (by omega)]
      omega
    rw [maybeIncreaseLargestPeerStreamId, if_neg hna, if_pos hgt] at hok
    cases hok
  obtain ⟨m₁, hm1, hinc, -⟩ := h.accepts_new hnew hlim
  obtain rfl : m₁ = m' := by
    rw [hm1] at hok
    exact Except.ok.inj hok
  exact hinc

end

end QuicStreamIdManager

end Quictun
