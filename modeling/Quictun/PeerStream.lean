import Quictun.StreamIdManager

/-!
# The count of one peer-initiated stream

A stream the peer has opened takes one place in the stream limit and gives it back through
`QuicStreamIdManager::OnStreamClosed()`: when it starts draining, when it is closed with its
final size known, or when the final size comes after it was closed here. A `Counted` is one
stream with the stream id manager. What the frames say beyond the final size is left out: a
frame that is not accepted closes the connection.
-/

namespace Quictun

structure PeerStream where
  finReceived : Bool := false
  rstReceived : Bool := false
  finSent : Bool := false
  rstSent : Bool := false
  stopSendingSent : Bool := false
  readSideClosed : Bool := false
  writeSideClosed : Bool := false
  wasDraining : Bool := false
  bytesOutstanding : Bool := false
  finOutstanding : Bool := false
  errorOk : Bool := true
  highestReceivedByteOffset : Nat := 0
deriving DecidableEq

namespace PeerStream

def hasReceivedFinalOffset (st : PeerStream) : Bool := st.finReceived || st.rstReceived

def isWaitingForAcks (st : PeerStream) : Bool :=
  (!st.rstSent || st.errorOk) && (st.bytesOutstanding || st.finOutstanding)

abbrev IsOpen (st : PeerStream) : Prop := st.readSideClosed = false ∨ st.writeSideClosed = false

def isZombie (st : PeerStream) : Bool := st.readSideClosed && st.writeSideClosed && st.isWaitingForAcks

end PeerStream

open PeerStream

/-- What the session keeps about one stream id, and as history whether it was closed here, whether its final size has
come, and how often the manager was told that it is closed. -/
structure Account where
  stream : Option PeerStream := none
  locallyClosed : Option Nat := none
  closed : Bool := false
  final : Bool := false
  credits : Nat := 0
deriving DecidableEq

def Account.creditable (a : Account) : Bool :=
  a.final && (a.closed || a.stream.any fun st => st.finSent && st.finReceived)

structure Counted extends Account where
  id : Nat
  manager : QuicStreamIdManager
  canSendMaxStreams : Bool

namespace Counted

section
variable (c : Counted)

def setStream (st : PeerStream) : Counted := { c with stream := some st }

def noteFinal (fin : Bool) : Counted := { c with final := c.final || fin }

def managerOnStreamClosed : Counted :=
  { c with manager := (c.manager.onStreamClosed c.id c.canSendMaxStreams).1, credits := c.credits + 1 }

def onStreamClosed : Counted :=
  match c.stream with
  | none => c
  | some st =>
    let c₁ := { c with closed := true, stream := if st.isWaitingForAcks then some st else none }
    if st.hasReceivedFinalOffset = false then { c₁ with locallyClosed := some st.highestReceivedByteOffset }
    else if st.wasDraining then c₁
    else c₁.managerOnStreamClosed

def closeReadSide : Counted :=
  match c.stream with
  | none => c
  | some st =>
    if st.readSideClosed then c
    else if st.writeSideClosed then (c.setStream { st with readSideClosed := true }).onStreamClosed
    else c.setStream { st with readSideClosed := true }

def closeWriteSide : Counted :=
  match c.stream with
  | none => c
  | some st =>
    if st.writeSideClosed then c
    else if st.readSideClosed then (c.setStream { st with writeSideClosed := true }).onStreamClosed
    else c.setStream { st with writeSideClosed := true }

def maybeCloseZombieStream : Counted := { c with stream := none }

/-- The end of several functions of the stream: a zombie that waits for nothing goes. -/
def closeIfDone : Counted :=
  match c.stream with
  | none => c
  | some st =>
    if st.readSideClosed && st.writeSideClosed && !st.isWaitingForAcks then c.maybeCloseZombieStream else c

def setError (ok : Bool) : Counted :=
  match c.stream with
  | none => c
  | some st => c.setStream { st with errorOk := ok }

def maybeSendStopSending : Counted :=
  match c.stream with
  | none => c
  | some st =>
    if st.stopSendingSent then c else (c.setStream { st with stopSendingSent := true }).closeReadSide

def maybeSendRstStream : Counted :=
  match c.stream with
  | none => c
  | some st => if st.rstSent then c else (c.setStream { st with rstSent := true }).closeWriteSide

/-! ## What happens to the stream -/

def onStreamFrame (st : PeerStream) (offset length : Nat) (fin : Bool) : Counted :=
  let st₁ :=
    if st.readSideClosed || length == 0 then st
    else { st with highestReceivedByteOffset := max st.highestReceivedByteOffset (offset + length) }
  if fin && !st.finReceived then
    if st.finSent then
      ((c.noteFinal fin).setStream { st₁ with finReceived := true, wasDraining := true }).managerOnStreamClosed
    else (c.noteFinal fin).setStream { st₁ with finReceived := true }
  else (c.noteFinal fin).setStream st₁

def onStreamReset (st : PeerStream) (byteOffset : Nat) (errorOk : Bool) : Counted :=
  ((c.noteFinal true).setStream { st with
    rstReceived := true
    highestReceivedByteOffset := max st.highestReceivedByteOffset byteOffset
    errorOk := errorOk }).closeReadSide

def onStopSending (st : PeerStream) (errorOk : Bool) : Counted :=
  if st.writeSideClosed && !st.isWaitingForAcks then c
  else (c.setError errorOk).maybeSendRstStream.closeIfDone

/-- `QuicSession::OnFinalByteOffsetReceived()`; nothing if that closes the connection. The final size
of a closed stream has come then, whether or not an entry waits for it. -/
def onFinalByteOffsetReceived (finalByteOffset : Nat) (accepted : Bool) : Option Counted :=
  match c.locallyClosed with
  | none => some (c.noteFinal c.closed)
  | some offset =>
    if finalByteOffset < offset ∨ accepted = false then none
    else some ({ c with locallyClosed := none }.noteFinal true).managerOnStreamClosed

def onFinRead (st : PeerStream) : Counted := (c.setStream { st with finReceived := true }).closeReadSide

def resetWithError (errorOk : Bool) : Counted :=
  (c.setError errorOk).maybeSendStopSending.maybeSendRstStream.closeIfDone

def finConsumed (st : PeerStream) : Counted :=
  let st₁ := { st with finSent := true, finOutstanding := true }
  (if st.finReceived then (c.setStream { st₁ with wasDraining := true }).managerOnStreamClosed
    else c.setStream st₁).closeWriteSide

def dataConsumed (st : PeerStream) : Counted := c.setStream { st with bytesOutstanding := true }

def onStreamFrameAcked (st : PeerStream) (allBytes fin : Bool) : Counted :=
  (c.setStream { st with
    bytesOutstanding := st.bytesOutstanding && !allBytes
    finOutstanding := st.finOutstanding && !fin }).closeIfDone

end

end Counted

open Counted

namespace Account

/-! ## Where the stream stands -/

/-- The books of a stream in `stream_map_` that has not been closed here: the place has been given back
if it is draining. -/
structure Tally (a : Account) (st : PeerStream) : Prop where
  stream : a.stream = some st
  notClosed : a.closed = false
  notLocallyClosed : a.locallyClosed = none
  final : a.final = st.hasReceivedFinalOffset
  draining : st.wasDraining = (st.finSent && st.finReceived)
  finSent : st.finSent = true → st.writeSideClosed = true
  credits : a.credits = if st.wasDraining then 1 else 0

structure Gone (a : Account) : Prop where
  closed : a.closed = true
  bothSides : ∀ st ∈ a.stream, st.readSideClosed = true ∧ st.writeSideClosed = true
  locallyClosed : a.locallyClosed.isSome = !a.final
  credits : a.credits = if a.final then 1 else 0

/-- The stream has been opened. In the middle of a function a closed one may not be a zombie any more and
still be in `stream_map_`. -/
inductive Booked (a : Account) : Prop
  | live (st : PeerStream) (h : a.Tally st) (hopen : st.IsOpen)
  | gone (h : a.Gone)

structure Settled (a : Account) : Prop where
  booked : a.Booked
  zombie : a.closed = true → ∀ st ∈ a.stream, st.isZombie = true

theorem Settled.credits_eq {a : Account} (h : a.Settled) : a.credits = if a.creditable then 1 else 0 := by
  cases h.booked with
  | live st h hopen =>
    have hcr := h.credits
    rw [h.draining] at hcr
    rw [hcr, creditable, h.final, h.notClosed, h.stream]
    cases hfs : st.finSent <;> cases hfr : st.finReceived <;> simp [hasReceivedFinalOffset, hfs, hfr]
  | gone h => simp [creditable, h.credits, h.closed]

section
variable {c : Counted} {st : PeerStream}

/-! ### Closing -/

theorem settled_onStreamClosed (h : c.Tally st) (hr : st.readSideClosed = true) (hw : st.writeSideClosed = true) :
    c.onStreamClosed.Settled := by
  have hzombie : ∀ z ∈ (if st.isWaitingForAcks then some st else none), z.isZombie = true := by
    intro z hz
    obtain ⟨ha, ⟨⟩⟩ := Option.ite_none_right_eq_some.1 hz
    simp [isZombie, hr, hw, ha]
  have hboth : ∀ z ∈ (if st.isWaitingForAcks then some st else none),
      z.readSideClosed = true ∧ z.writeSideClosed = true := by
    intro z hz
    obtain ⟨-, ⟨⟩⟩ := Option.ite_none_right_eq_some.1 hz
    exact ⟨hr, hw⟩
  have hf := h.final
  have hcr := h.credits
  unfold onStreamClosed
  rw [h.stream]
  dsimp only
  split
  next hfin =>
    have hd : st.wasDraining = false := by
      have hfr : st.finReceived = false := (Bool.or_eq_false_iff.1 hfin).1
      rw [h.draining, hfr, Bool.and_false]
    refine ⟨.gone ⟨rfl, hboth, ?_, ?_⟩, fun _ => hzombie⟩
    · simp [hf, hfin]
    · simp [hf, hfin, hcr, hd]
  next hfin =>
    rw [Bool.not_eq_false] at hfin
    split
    next hd =>
      refine ⟨.gone ⟨rfl, hboth, ?_, ?_⟩, fun _ => hzombie⟩
      · simp [hf, hfin, h.notLocallyClosed]
      · simp [hf, hfin, hcr, hd]
    next hd =>
      refine ⟨.gone ⟨rfl, hboth, ?_, ?_⟩, fun _ => hzombie⟩
      · simp [managerOnStreamClosed, hf, hfin, h.notLocallyClosed]
      · simp [managerOnStreamClosed, hf, hfin, hcr, hd]

theorem settled_live (h : c.Tally st) (hopen : st.IsOpen) : c.Settled :=
  ⟨.live st h hopen, fun hc => by cases h.notClosed.symm.trans hc⟩

variable {st' : PeerStream}

theorem Tally.set (h : c.Tally st) (hfr : st'.finReceived = st.finReceived)
    (hrr : st'.rstReceived = st.rstReceived) (hfs : st'.finSent = st.finSent) (hd : st'.wasDraining = st.wasDraining)
    (hw : st.writeSideClosed = true → st'.writeSideClosed = true) : (c.setStream st').Tally st' := by
  refine ⟨rfl, h.notClosed, h.notLocallyClosed, ?_, ?_, fun hf => hw (h.finSent (hfs ▸ hf)), ?_⟩
  · rw [hasReceivedFinalOffset, hfr, hrr]
    exact h.final
  · rw [hd, hfs, hfr]
    exact h.draining
  · rw [hd]
    exact h.credits

theorem Gone.set (h : c.Gone) (hs : c.stream = some st)
    (hr : st'.readSideClosed = st.readSideClosed) (hw : st'.writeSideClosed = st.writeSideClosed) :
    (c.setStream st').Gone := by
  refine { h with bothSides := fun z hz => ?_ }
  cases hz
  rw [hr, hw]
  exact h.bothSides st hs

theorem Tally.closeReadSide (h : c.Tally st) (hopen : st.IsOpen) : c.closeReadSide.Settled := by
  unfold Counted.closeReadSide
  rw [h.stream]
  dsimp only
  split
  · exact settled_live h hopen
  next =>
  have h' : (c.setStream { st with readSideClosed := true }).Tally _ := h.set rfl rfl rfl rfl fun hw => hw
  split
  next hw =>
    exact settled_onStreamClosed h' rfl hw
  next hw =>
    exact settled_live h' (.inr (Bool.eq_false_iff.2 hw))

theorem settled_closeWriteSide (hs : c.stream = some st) (hw : st.writeSideClosed = false)
    (h : (c.setStream { st with writeSideClosed := true }).Tally { st with writeSideClosed := true }) :
    c.closeWriteSide.Settled := by
  unfold closeWriteSide
  rw [hs]
  dsimp only
  rw [hw, if_neg Bool.false_ne_true]
  split
  next hr =>
    exact settled_onStreamClosed h hr rfl
  next hr =>
    exact settled_live h (.inl (Bool.eq_false_iff.2 hr))

theorem Tally.closeWriteSide (h : c.Tally st) (hopen : st.IsOpen) : c.closeWriteSide.Settled := by
  by_cases hw : st.writeSideClosed = true
  · unfold Counted.closeWriteSide
    rw [h.stream]
    dsimp only
    rw [if_pos hw]
    exact settled_live h hopen
  · exact settled_closeWriteSide h.stream (Bool.eq_false_iff.2 hw) (h.set rfl rfl rfl rfl fun _ => rfl)

theorem Gone.closeReadSide_eq (h : c.Gone) : c.closeReadSide = c := by
  unfold closeReadSide
  cases hs : c.stream with
  | none => rfl
  | some st =>
    dsimp only
    rw [if_pos (h.bothSides st hs).1]

theorem Gone.closeWriteSide_eq (h : c.Gone) : c.closeWriteSide = c := by
  unfold closeWriteSide
  cases hs : c.stream with
  | none => rfl
  | some st =>
    dsimp only
    rw [if_pos (h.bothSides st hs).2]

/-! ### Resetting -/

theorem Booked.setError (h : c.Booked) (ok : Bool) : (c.setError ok).Booked := by
  unfold Counted.setError
  cases h with
  | live st h hopen =>
    rw [h.stream]
    exact .live _ (h.set rfl rfl rfl rfl fun hw => hw) hopen
  | gone h =>
    cases hs : c.stream with
    | none => exact .gone h
    | some st => exact .gone (h.set hs rfl rfl)

theorem Booked.maybeSendStopSending (h : c.Booked) : c.maybeSendStopSending.Booked := by
  unfold Counted.maybeSendStopSending
  cases h with
  | live st h hopen =>
    rw [h.stream]
    dsimp only
    split
    · exact .live st h hopen
    · have h' : (c.setStream { st with stopSendingSent := true }).Tally _ := h.set rfl rfl rfl rfl fun hw => hw
      exact (h'.closeReadSide hopen).booked
  | gone h =>
    cases hs : c.stream with
    | none => exact .gone h
    | some st =>
      dsimp only
      by_cases hsent : st.stopSendingSent = true
      · rw [if_pos hsent]
        exact .gone h
      · have h' : (c.setStream { st with stopSendingSent := true }).Gone := h.set hs rfl rfl
        rw [if_neg hsent, h'.closeReadSide_eq]
        exact .gone h'

theorem Booked.maybeSendRstStream (h : c.Booked) : c.maybeSendRstStream.Booked := by
  unfold Counted.maybeSendRstStream
  cases h with
  | live st h hopen =>
    rw [h.stream]
    dsimp only
    split
    · exact .live st h hopen
    · have h' : (c.setStream { st with rstSent := true }).Tally _ := h.set rfl rfl rfl rfl fun hw => hw
      exact (h'.closeWriteSide hopen).booked
  | gone h =>
    cases hs : c.stream with
    | none => exact .gone h
    | some st =>
      dsimp only
      by_cases hsent : st.rstSent = true
      · rw [if_pos hsent]
        exact .gone h
      · have h' : (c.setStream { st with rstSent := true }).Gone := h.set hs rfl rfl
        rw [if_neg hsent, h'.closeWriteSide_eq]
        exact .gone h'

theorem Booked.closeIfDone (h : c.Booked) : c.closeIfDone.Settled := by
  unfold Counted.closeIfDone
  cases h with
  | live st h hopen =>
    rw [h.stream]
    dsimp only
    have hno : ¬(st.readSideClosed && st.writeSideClosed && !st.isWaitingForAcks) = true := by
      rcases hopen with ho | ho <;> simp [ho]
    rw [if_neg hno]
    exact settled_live h hopen
  | gone h =>
    cases hs : c.stream with
    | none =>
      refine ⟨.gone h, fun _ z hz => ?_⟩
      rw [hs] at hz
      cases hz
    | some st =>
      dsimp only
      split
      · refine ⟨.gone { h with bothSides := fun z hz => ?_ }, fun _ z hz => ?_⟩ <;> cases hz
      next hdone =>
        refine ⟨.gone h, fun _ z hz => ?_⟩
        obtain rfl := Option.some.inj (hs.symm.trans hz)
        obtain ⟨hr, hw⟩ := h.bothSides st hs
        simpa [isZombie, hr, hw] using hdone

/-! ### Frames, reads and writes -/

theorem Settled.tally (h : c.Settled) (hs : c.stream = some st) (hz : st.isZombie = false) :
    c.Tally st ∧ st.IsOpen := by
  cases h.booked with
  | live st' h hopen =>
    obtain rfl : st' = st := Option.some.inj (h.stream.symm.trans hs)
    exact ⟨h, hopen⟩
  | gone hg => cases hz.symm.trans (h.zombie hg.closed st hs)

section
variable (h : c.Tally st) (hopen : st.IsOpen)
include h hopen

theorem Tally.onStreamFrame (offset length : Nat) (fin : Bool) : (c.onStreamFrame st offset length fin).Settled := by
  unfold Counted.onStreamFrame
  generalize hst : (if st.readSideClosed || length == 0 then st
    else { st with highestReceivedByteOffset := max st.highestReceivedByteOffset (offset + length) }) = st₁
  have hsame : ∃ n, st₁ = { st with highestReceivedByteOffset := n } := by
    subst hst
    split
    · exact ⟨st.highestReceivedByteOffset, rfl⟩
    · exact ⟨_, rfl⟩
  obtain ⟨n, rfl⟩ := hsame
  split
  next hnew =>
    rw [Bool.and_eq_true, Bool.not_eq_true'] at hnew
    have hd : st.wasDraining = false := by rw [h.draining, hnew.2, Bool.and_false]
    have hc0 : c.credits = 0 := by simp [h.credits, hd]
    split
    next hfs =>
      refine settled_live ⟨rfl, h.notClosed, h.notLocallyClosed, ?_, ?_, h.finSent, ?_⟩ hopen
      · simp [noteFinal, managerOnStreamClosed, setStream, hnew.1, hasReceivedFinalOffset]
      · simp [hfs]
      · simp [managerOnStreamClosed, setStream, noteFinal, hc0]
    next hfs =>
      refine settled_live ⟨rfl, h.notClosed, h.notLocallyClosed, ?_, ?_, h.finSent, ?_⟩ hopen
      · simp [noteFinal, setStream, hnew.1, hasReceivedFinalOffset]
      · simp [hfs, hd]
      · simp [setStream, noteFinal, hc0, hd]
  next hnew =>
    refine settled_live ⟨rfl, h.notClosed, h.notLocallyClosed, ?_, h.draining, h.finSent, h.credits⟩ hopen
    have hf := h.final
    cases fin with
    | false => simpa [noteFinal, setStream, hasReceivedFinalOffset] using hf
    | true =>
      have hfr : st.finReceived = true := by simpa using hnew
      simp [noteFinal, setStream, hasReceivedFinalOffset, hfr]

theorem Tally.onStreamReset (byteOffset : Nat) (errorOk : Bool) : (c.onStreamReset st byteOffset errorOk).Settled := by
  unfold Counted.onStreamReset
  refine Tally.closeReadSide ⟨rfl, h.notClosed, h.notLocallyClosed, ?_, h.draining, h.finSent, h.credits⟩ hopen
  simp [noteFinal, setStream, hasReceivedFinalOffset]

end

theorem Settled.onStopSending (h : c.Settled) (st : PeerStream) (errorOk : Bool) :
    (c.onStopSending st errorOk).Settled := by
  unfold Counted.onStopSending
  split
  · exact h
  · exact (h.booked.setError errorOk).maybeSendRstStream.closeIfDone

theorem Settled.resetWithError (h : c.Settled) (errorOk : Bool) : (c.resetWithError errorOk).Settled :=
  (h.booked.setError errorOk).maybeSendStopSending.maybeSendRstStream.closeIfDone

theorem Settled.onFinalByteOffsetReceived (h : c.Settled) {n : Nat} {accepted : Bool} {c' : Counted}
    (hc : c.onFinalByteOffsetReceived n accepted = some c') : c'.Settled := by
  unfold Counted.onFinalByteOffsetReceived at hc
  cases hl : c.locallyClosed with
  | none =>
    rw [hl] at hc
    cases hc
    have hknown : (c.final || c.closed) = c.final := by
      cases h.booked with
      | live st ht hopen => rw [ht.notClosed, Bool.or_false]
      | gone hg =>
        have hlc := hg.locallyClosed
        rw [hl] at hlc
        have hf : c.final = true := by simpa using hlc.symm
        rw [hf, Bool.true_or]
    have hsame : c.noteFinal c.closed = c := by
      unfold noteFinal
      rw [hknown]
    rw [hsame]
    exact h
  | some offset =>
    rw [hl] at hc
    obtain ⟨-, ⟨⟩⟩ := Option.ite_none_left_eq_some.1 hc
    cases h.booked with
    | live st ht hopen => cases hl.symm.trans ht.notLocallyClosed
    | gone hg =>
      have hf : c.final = false := by
        have hlc := hg.locallyClosed
        rw [hl] at hlc
        simpa using hlc.symm
      have hcr : c.credits = 0 := by simp [hg.credits, hf]
      refine ⟨.gone ⟨hg.closed, hg.bothSides, ?_, ?_⟩, h.zombie⟩
      · simp [managerOnStreamClosed, noteFinal]
      · simp [managerOnStreamClosed, noteFinal, hcr]

theorem Tally.onFinRead (h : c.Tally st) (hopen : st.IsOpen)
    (hfin : st.finReceived = true) : (c.onFinRead st).Settled := by
  have h' : (c.setStream { st with finReceived := true }).Tally _ := h.set hfin.symm rfl rfl rfl fun hw => hw
  exact h'.closeReadSide hopen

theorem Tally.finConsumed (h : c.Tally st) (hw : st.writeSideClosed = false) : (c.finConsumed st).Settled := by
  have hfs : st.finSent = false := by
    rw [← Bool.not_eq_true]
    intro hf
    cases hw.symm.trans (h.finSent hf)
  have hd : st.wasDraining = false := by rw [h.draining, hfs, Bool.false_and]
  have hc0 : c.credits = 0 := by simp [h.credits, hd]
  unfold Counted.finConsumed
  split
  next hfr =>
    refine settled_closeWriteSide rfl hw ⟨rfl, h.notClosed, h.notLocallyClosed, h.final, ?_, fun _ => rfl, ?_⟩
    · simp [hfr]
    · simp [managerOnStreamClosed, setStream, hc0]
  next hfr =>
    refine settled_closeWriteSide rfl hw ⟨rfl, h.notClosed, h.notLocallyClosed, h.final, ?_, fun _ => rfl, ?_⟩
    · simp [hfr, hd]
    · simp [setStream, hc0, hd]

theorem Tally.dataConsumed (h : c.Tally st) (hopen : st.IsOpen) : (c.dataConsumed st).Settled := by
  have h' : (c.setStream { st with bytesOutstanding := true }).Tally _ := h.set rfl rfl rfl rfl fun hw => hw
  exact settled_live h' hopen

theorem Settled.onStreamFrameAcked (h : c.Settled) (hs : c.stream = some st) (allBytes fin : Bool) :
    (c.onStreamFrameAcked st allBytes fin).Settled := by
  unfold Counted.onStreamFrameAcked
  refine Booked.closeIfDone ?_
  cases h.booked with
  | live st' h hopen =>
    obtain rfl : st' = st := Option.some.inj (h.stream.symm.trans hs)
    exact .live _ (h.set rfl rfl rfl rfl fun hw => hw) hopen
  | gone h => exact .gone (h.set hs rfl rfl)

end

end Account

namespace Counted

/-! ## The manager -/

def closings (m : QuicStreamIdManager) (id : Nat) (canSendMaxStreams : Bool) : Nat → QuicStreamIdManager
  | 0 => m
  | k + 1 => ((closings m id canSendMaxStreams k).onStreamClosed id canSendMaxStreams).1

structure Paid (c c' : Counted) : Prop where
  id : c'.id = c.id
  canSendMaxStreams : c'.canSendMaxStreams = c.canSendMaxStreams
  calls : ∃ k, c'.credits = c.credits + k ∧ c'.manager = closings c.manager c.id c.canSendMaxStreams k

theorem Paid.refl (c : Counted) : c.Paid c := ⟨rfl, rfl, 0, rfl, rfl⟩

theorem closings_add (m : QuicStreamIdManager) (id : Nat) (b : Bool) (j k : Nat) :
    closings m id b (j + k) = closings (closings m id b j) id b k := by
  induction k with
  | zero => rfl
  | succ k ih => rw [← add_assoc, closings, ih, closings]

theorem Paid.trans {c d e : Counted} (h1 : c.Paid d) (h2 : d.Paid e) : c.Paid e := by
  obtain ⟨j, hj, hmj⟩ := h1.calls
  obtain ⟨k, hk, hmk⟩ := h2.calls
  refine ⟨h2.id.trans h1.id, h2.canSendMaxStreams.trans h1.canSendMaxStreams, j + k, by omega, ?_⟩
  rw [hmk, hmj, h1.id, h1.canSendMaxStreams, closings_add]

section
variable (c : Counted)

theorem paid_onStreamClosed : c.Paid c.onStreamClosed := by
  unfold onStreamClosed
  split
  · exact .refl c
  dsimp only
  split
  · exact ⟨rfl, rfl, 0, rfl, rfl⟩
  split
  · exact ⟨rfl, rfl, 0, rfl, rfl⟩
  · exact ⟨rfl, rfl, 1, rfl, rfl⟩

theorem paid_setStream (st : PeerStream) : c.Paid (c.setStream st) := ⟨rfl, rfl, 0, rfl, rfl⟩

theorem paid_closeReadSide : c.Paid c.closeReadSide := by
  unfold closeReadSide
  split
  · exact .refl c
  split
  · exact .refl c
  split
  · exact (paid_setStream c _).trans (paid_onStreamClosed _)
  · exact paid_setStream c _

theorem paid_closeWriteSide : c.Paid c.closeWriteSide := by
  unfold closeWriteSide
  split
  · exact .refl c
  split
  · exact .refl c
  split
  · exact (paid_setStream c _).trans (paid_onStreamClosed _)
  · exact paid_setStream c _

theorem paid_setError (ok : Bool) : c.Paid (c.setError ok) := by
  unfold setError
  split
  · exact .refl c
  · exact paid_setStream c _

theorem paid_closeIfDone : c.Paid c.closeIfDone := by
  unfold closeIfDone
  split
  · exact .refl c
  split
  · exact ⟨rfl, rfl, 0, rfl, rfl⟩
  · exact .refl c

theorem paid_maybeSendStopSending : c.Paid c.maybeSendStopSending := by
  unfold maybeSendStopSending
  split
  · exact .refl c
  split
  · exact .refl c
  · exact (paid_setStream c _).trans (paid_closeReadSide _)

theorem paid_maybeSendRstStream : c.Paid c.maybeSendRstStream := by
  unfold maybeSendRstStream
  split
  · exact .refl c
  split
  · exact .refl c
  · exact (paid_setStream c _).trans (paid_closeWriteSide _)

theorem paid_onStreamFrame (st : PeerStream) (offset length : Nat) (fin : Bool) :
    c.Paid (c.onStreamFrame st offset length fin) := by
  unfold onStreamFrame
  dsimp only
  split
  · split
    · exact ⟨rfl, rfl, 1, rfl, rfl⟩
    · exact ⟨rfl, rfl, 0, rfl, rfl⟩
  · exact ⟨rfl, rfl, 0, rfl, rfl⟩

theorem paid_onStreamReset (st : PeerStream) (byteOffset : Nat) (errorOk : Bool) :
    c.Paid (c.onStreamReset st byteOffset errorOk) := by
  refine Paid.trans ?_ (paid_closeReadSide _)
  exact ⟨rfl, rfl, 0, rfl, rfl⟩

theorem paid_onStopSending (st : PeerStream) (errorOk : Bool) : c.Paid (c.onStopSending st errorOk) := by
  unfold onStopSending
  split
  · exact .refl c
  · exact ((paid_setError c errorOk).trans (paid_maybeSendRstStream _)).trans (paid_closeIfDone _)

theorem paid_resetWithError (errorOk : Bool) : c.Paid (c.resetWithError errorOk) :=
  (((paid_setError c errorOk).trans (paid_maybeSendStopSending _)).trans (paid_maybeSendRstStream _)).trans
    (paid_closeIfDone _)

theorem paid_onFinalByteOffsetReceived {c c' : Counted} {n : Nat} {accepted : Bool}
    (hc : c.onFinalByteOffsetReceived n accepted = some c') : c.Paid c' := by
  unfold onFinalByteOffsetReceived at hc
  split at hc
  · cases hc
    exact ⟨rfl, rfl, 0, rfl, rfl⟩
  · obtain ⟨-, ⟨⟩⟩ := Option.ite_none_left_eq_some.1 hc
    exact ⟨rfl, rfl, 1, rfl, rfl⟩

theorem paid_finConsumed (st : PeerStream) : c.Paid (c.finConsumed st) := by
  unfold finConsumed
  refine Paid.trans ?_ (paid_closeWriteSide _)
  split
  · exact ⟨rfl, rfl, 1, rfl, rfl⟩
  · exact paid_setStream c _

theorem paid_onFinRead (st : PeerStream) : c.Paid (c.onFinRead st) :=
  (paid_setStream c _).trans (paid_closeReadSide _)

theorem paid_onStreamFrameAcked (st : PeerStream) (allBytes fin : Bool) :
    c.Paid (c.onStreamFrameAcked st allBytes fin) :=
  (paid_setStream c _).trans (paid_closeIfDone _)

end

section
open QuicStreamIdManager
variable {m : QuicStreamIdManager} {id : Nat} {b : Bool}

theorem sameIds_closings (k : Nat) : SameIds m (closings m id b k) := by
  induction k with
  | zero => exact .refl m
  | succ k ih => exact ih.trans (sameIds_onStreamClosed _ id b)

theorem incoming_closings {heard : List Nat} (h : Incoming heard m) (k : Nat) : Incoming heard (closings m id b k) := by
  induction k with
  | zero => exact h
  | succ k ih => exact (raises_onStreamClosed ih.toLimits id b).incoming heard ih

theorem actual_closings (hid : m.IsIncoming id) (hstop : m.stopIncreasingIncomingMaxStreams = false) {k : Nat}
    (hk : m.incomingActualMaxStreams + k ≤ QuicUtils.getMaxStreamCount) :
    (closings m id b k).incomingActualMaxStreams = m.incomingActualMaxStreams + k := by
  induction k with
  | zero => rfl
  | succ k ih =>
    have hih := ih (Nat.le_of_succ_le hk)
    have hs : SameIds m (closings m id b k) := sameIds_closings k
    rw [closings, actual_onStreamClosed (hs.isIncoming.2 hid) (hs.stop.trans hstop) (by omega) b, hih, add_assoc]

end

end Counted

end Quictun
