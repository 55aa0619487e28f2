import Mathlib.Algebra.BigOperators.Group.Finset.Piecewise
import Mathlib.Algebra.Order.BigOperators.Group.Finset
import Quictun.Run
import Quictun.StreamCredit

/-!
# The credit of a session

A session with any number of streams, and a peer that sticks to one final size per stream
and to the limits it was told. The ledger notes for every stream by how much its events have
moved the session's two counters.

A FIN may come ahead of data that is still missing. If the stream is then abandoned,
`OnStreamClosed()` keeps no entry for it, but the stream has only been charged for what it
had received: the rest of its final size is never counted (`early_fin_leaks`).
-/

namespace Quictun

open Function Finset

inductive StreamAction
  | create
  | streamFrame (offset len : Nat) (fin : Bool)
  | rstStream (byteOffset : Nat)
  | read (n : Nat)
  | stopReading
  | reset
  /-- The FIN is sent, or a STOP_SENDING is answered. -/
  | closeWriteSide
deriving DecidableEq

namespace StreamAction

def sentTo : StreamAction → Option Nat
  | .streamFrame offset len _ => some (offset + len)
  | .rstStream byteOffset => some byteOffset
  | _ => none

def isFinal : StreamAction → Bool
  | .streamFrame _ _ fin => fin
  | .rstStream _ => true
  | _ => false

def needsStream : StreamAction → Bool
  | .read _ | .stopReading | .reset | .closeWriteSide => true
  | _ => false

end StreamAction

def Receiver.act (v : Receiver) : StreamAction → Except QuicErrorCode Receiver
  | .create => .ok v
  | .streamFrame offset len fin => v.receiveStreamFrame offset len fin
  | .rstStream byteOffset => v.receiveRstStream byteOffset
  | .read n => .ok (v.read n)
  | .stopReading => .ok v.stopReading
  | .reset => .ok v.reset
  | .closeWriteSide => .ok v.closeWriteSide

structure QuicSession where
  streams : Nat → Option QuicStream := fun _ => none
  locallyClosedStreamsHighestOffset : Nat → Option Nat := fun _ => none
  flowController : QuicFlowController
  streamWindow : Nat
  error : Option QuicErrorCode := none

namespace QuicSession

def receiver (s : QuicSession) (id : Nat) : Receiver :=
  { stream := (s.streams id).getD
      { flowController := { receiveWindowOffset := s.streamWindow, receiveWindowSize := s.streamWindow } }
    session := s.flowController
    locallyClosed := s.locallyClosedStreamsHighestOffset id }

def put (s : QuicSession) (id : Nat) (v : Receiver) : QuicSession :=
  { s with
    streams := update s.streams id (some v.stream)
    locallyClosedStreamsHighestOffset := update s.locallyClosedStreamsHighestOffset id v.locallyClosed
    flowController := v.session }

end QuicSession

/-- A session, with what the peer has sent and what each stream has added to the session's
counters. -/
structure Ledger where
  session : QuicSession
  ids : Finset Nat := ∅
  sent : Nat → Nat := fun _ => 0
  learned : Nat → Bool := fun _ => false
  charged : Nat → Nat := fun _ => 0
  credited : Nat → Nat := fun _ => 0

namespace Ledger

variable (l : Ledger)

def sentAfter (id : Nat) (a : StreamAction) : Nat := max (l.sent id) (a.sentTo.getD 0)

/-- The frames of a stream stay within its one final size and end there, and the peer keeps to the
limits it has been told. -/
def conforms (finalSize : Nat → Nat) (l : Ledger) (id : Nat) (a : StreamAction) : Bool :=
  a.sentTo.all fun n =>
    n ≤ finalSize id && (!a.isFinal || n == finalSize id) &&
      l.sentAfter id a ≤ (l.session.receiver id).stream.flowController.receiveWindowOffset &&
      ∑ j ∈ insert id l.ids, update l.sent id (l.sentAfter id a) j ≤ l.session.flowController.receiveWindowOffset

def enabled (finalSize : Nat → Nat) (l : Ledger) (id : Nat) (a : StreamAction) : Bool :=
  l.session.error.isNone && (!a.needsStream || (l.session.streams id).isSome) && l.conforms finalSize id a

def record (id : Nat) (a : StreamAction) (v : Receiver) : Ledger :=
  { session := l.session.put id v
    ids := insert id l.ids
    sent := update l.sent id (l.sentAfter id a)
    learned := update l.learned id (l.learned id || a.isFinal)
    charged := update l.charged id (l.charged id + v.session.highestReceivedByteOffset -
      l.session.flowController.highestReceivedByteOffset)
    credited := update l.credited id
      (l.credited id + v.session.bytesConsumed - l.session.flowController.bytesConsumed) }

def step (finalSize : Nat → Nat) (l : Ledger) : Nat × StreamAction → Option Ledger
  | (id, a) =>
    if l.enabled finalSize id a then
      match (l.session.receiver id).act a with
      | .ok v => some (l.record id a v)
      | .error e => some { l with session := { l.session with error := some e } }
    else none

def init (sessionWindow streamWindow : Nat) : Ledger :=
  { session := { flowController := { receiveWindowOffset := sessionWindow, receiveWindowSize := sessionWindow }
                 streamWindow } }

def consumed (id : Nat) : Nat :=
  (l.session.streams id).elim 0 fun s => if s.closed then l.charged id else s.flowController.bytesConsumed

/-! ## One event -/

/-- The stream is abandoned only after everything up to a FIN it knows has been received. -/
def abandonsWhole : Nat × StreamAction → Prop
  | (id, .reset) => (l.session.receiver id).stream.readSideClosed = true ∨
      ∀ c ∈ (l.session.receiver id).stream.sequencer.closeOffset, c ≤ (l.session.receiver id).highest
  | _ => True

instance (l : Ledger) (e : Nat × StreamAction) : Decidable (l.abandonsWhole e) := by
  obtain ⟨id, a⟩ := e
  cases a <;> unfold abandonsWhole <;> infer_instance

end Ledger

namespace Receiver

section
variable {T : Terms} {learned : Bool}

variable {v v' : Receiver} {a : StreamAction}

theorem Credit.act (h : v.Credit T learned) (hW : T.bh + T.S ≤ T.W) (hSF : T.S ≤ T.F)
    (hS : ∀ n ∈ a.sentTo, n ≤ T.S ∧ (a.isFinal = true → n = T.F))
    (hP : T.P → a = .reset → v.stream.readSideClosed = true ∨ ∀ c ∈ v.stream.sequencer.closeOffset, c ≤ v.highest)
    (hv : v.act a = .ok v') : v.Kept T (learned || a.isFinal) v' := by
  cases a with
  | create =>
    cases hv
    simp only [StreamAction.isFinal, Bool.or_false]
    exact h.kept rfl rfl
  | streamFrame offset len fin =>
    obtain ⟨hn, hfin⟩ := hS _ rfl
    exact h.receiveStreamFrame hW hSF hn hfin hv
  | rstStream byteOffset =>
    obtain ⟨hn, hfin⟩ := hS _ rfl
    obtain rfl : byteOffset = T.F := hfin rfl
    simp only [StreamAction.isFinal, Bool.or_true]
    exact h.receiveRstStream hW hSF hn hv
  | read n =>
    cases hv
    simp only [StreamAction.isFinal, Bool.or_false]
    exact h.read hW hSF n
  | stopReading =>
    cases hv
    simp only [StreamAction.isFinal, Bool.or_false]
    exact h.stopReading hW hSF
  | reset =>
    cases hv
    simp only [StreamAction.isFinal, Bool.or_false]
    refine h.reset hW fun hp hr hl => ?_
    have hrd := h.toReading (by simp [hr])
    rcases hP hp rfl with hc | hc
    · cases hr.symm.trans hc
    · -- the FIN is known, and what has been received reaches it
      have hle : T.F ≤ v.highest := hc T.F (by rw [hrd.closeOffset, if_pos (hrd.learned.symm.trans hl)]; rfl)
      have := hrd.isOpen.highest_le
      omega
  | closeWriteSide =>
    cases hv
    simp only [StreamAction.isFinal, Bool.or_false]
    exact h.closeWriteSide hW

def alone (v : Receiver) (charged credited : Nat) : Receiver :=
  { v with session := { v.session with highestReceivedByteOffset := charged, bytesConsumed := credited } }

variable {charged credited : Nat}

section
variable {P : Prop} {F S bh bc : Nat}
  (h : (v.alone charged credited).Credit ⟨P, F, S, v.session.receiveWindowOffset, 0, 0⟩ learned)
  (hh : v.session.highestReceivedByteOffset = bh + charged) (hc : v.session.bytesConsumed = bc + credited)
include h hh hc

theorem Credit.within : v.Credit ⟨P, F, S, v.session.receiveWindowOffset, bh, bc⟩ learned := by
  refine h.rebase (g := v.session) (fun x hx => ?_) (fun y hy => ?_) le_rfl
  · have hx' : charged = 0 + x := hx
    omega
  · have hy' : credited = 0 + y := hy
    omega

theorem Credit.act_within
    (hroom : bh + S ≤ v.session.receiveWindowOffset) (hSF : S ≤ F)
    (hS : ∀ n ∈ a.sentTo, n ≤ S ∧ (a.isFinal = true → n = F))
    (hP : P → a = .reset → v.stream.readSideClosed = true ∨ ∀ c ∈ v.stream.sequencer.closeOffset, c ≤ v.highest)
    (hv : v.act a = .ok v') : ∃ x y,
      charged + v'.session.highestReceivedByteOffset - v.session.highestReceivedByteOffset = x ∧
      credited + v'.session.bytesConsumed - v.session.bytesConsumed = y ∧
      v'.session.highestReceivedByteOffset = bh + x ∧ v'.session.bytesConsumed = bc + y ∧
      v.session.receiveWindowOffset ≤ v'.session.receiveWindowOffset ∧
      (v'.alone x y).Credit ⟨P, F, S, v'.session.receiveWindowOffset, 0, 0⟩ (learned || a.isFinal) := by
  -- the stream in the session, then the event, then the stream on its own again
  have hout := ((h.within hh hc).act hroom hSF hS hP hv).credit
  obtain ⟨x, y, _, hvh, hvc, _⟩ := hout.share
  dsimp only at hvh hvc
  refine ⟨x, y, by omega, by omega, hvh, hvc, hout.sessionRoom,
    hout.rebase (fun z hz => ?_) (fun z hz => ?_) le_rfl⟩ <;> dsimp only at hz ⊢ <;> omega

end

/-! ## No violation is seen -/

theorem sequence_error {offset len : Nat} {fin : Bool} {e : QuicErrorCode}
    (hv : v.sequence offset len fin = .error e) : e ≠ .flowControlReceivedTooMuchData := by
  have hdata : ∀ {w : Receiver}, w.onFrameData offset len = .error e → e ≠ .flowControlReceivedTooMuchData := by
    intro w hw
    unfold onFrameData QuicStreamSequencer.onStreamData at hw
    dsimp only at hw
    split at hw
    next he =>
      split at he
      · cases he
        cases hw
        decide
      split at he
      · cases he
      split at he
      · cases he
        cases hw
        decide
      · cases he
    · cases hw
    · split at hw <;> cases hw
  unfold sequence at hv
  split at hv
  · split at hv
    next he =>
      cases hv
      unfold closeStreamAtOffset at he
      dsimp only at he
      split at he
      · cases he
        decide
      split at he
      · cases he
        decide
      · cases he
    · split at hv
      · cases hv
      · exact hdata hv
  · split at hv
    · cases hv
    · exact hdata hv

variable (hW : T.bh + T.S ≤ T.W)
include hW

theorem Closed.onFinalByteOffsetReceived_error (h : v.Closed T learned) (hFS : T.F ≤ T.S)
    {e : QuicErrorCode} (hv : v.onFinalByteOffsetReceived T.F = .error e) : e ≠ .flowControlReceivedTooMuchData := by
  obtain ⟨x, hx, hh, hc, hl⟩ := h.share
  have hsr := h.sessionRoom
  unfold Receiver.onFinalByteOffsetReceived at hv
  split at hv
  · cases hv
  next o ho =>
  dsimp only at hv
  split at hv
  · cases hv
    decide
  next hxF =>
  split at hv
  next hviol =>
    -- all of the stream, and what the others were charged for, is within the window
    exfalso
    rcases hl with ⟨hlc, _⟩ | ⟨hlc, _⟩
    · obtain rfl : o = x := Option.some.inj (ho.symm.trans hlc)
      rw [QuicFlowController.flowControlViolation, QuicFlowController.updateHighestReceivedOffset_eq,
        decide_eq_true_eq] at hviol
      dsimp only at hviol
      omega
    · cases ho.symm.trans hlc
  · cases hv

theorem Open.increase_no_violation (h : v.Open T) {n : Nat} (hn : n ≤ T.S) :
    (v.maybeIncreaseHighestReceivedOffset n).flowControlViolation = false := by
  obtain ⟨f, g, he, hu, _⟩ := h.increase hn
  rw [he]
  exact hu.no_violation hW

theorem Open.onStreamFrame_error (h : v.Open T) {offset len : Nat} {fin : Bool} {e : QuicErrorCode}
    (hS : offset + len ≤ T.S) (hv : v.onStreamFrame offset len fin = .error e) :
    e ≠ .flowControlReceivedTooMuchData := by
  unfold onStreamFrame at hv
  split at hv
  · cases hv
    decide
  split at hv
  · cases hv
    decide
  split at hv
  · cases hv
  dsimp only at hv
  have hset : (v.setFinReceived fin).Open T := { h with }
  split at hv
  · rw [hset.increase_no_violation hW hS, Bool.and_false, if_neg Bool.false_ne_true] at hv
    exact sequence_error hv
  · rw [hset.no_violation hW, Bool.and_false, if_neg Bool.false_ne_true] at hv
    exact sequence_error hv

theorem Open.onStreamReset_error (h : v.Open T) {n : Nat} {e : QuicErrorCode} (hS : n ≤ T.S)
    (hv : v.onStreamReset n = .error e) : e ≠ .flowControlReceivedTooMuchData := by
  unfold onStreamReset at hv
  split at hv
  · cases hv
    decide
  split at hv
  · cases hv
    decide
  dsimp only at hv
  have hrst : ({ v with stream := { v.stream with rstReceived := true } } : Receiver).Open T := { h with }
  rw [hrst.increase_no_violation hW hS] at hv
  cases hv

theorem Credit.act_error (h : v.Credit T learned)
    (hS : ∀ n ∈ a.sentTo, n ≤ T.S ∧ (a.isFinal = true → n = T.F)) {e : QuicErrorCode} (hv : v.act a = .error e) :
    e ≠ .flowControlReceivedTooMuchData := by
  cases a with
  | streamFrame offset len fin =>
    obtain ⟨hn, hfin⟩ := hS _ rfl
    have hv' : v.receiveStreamFrame offset len fin = .error e := hv
    unfold Receiver.receiveStreamFrame at hv'
    split at hv'
    next hc =>
      split at hv'
      next hf =>
        rw [hfin hf] at hv'
        exact (h.toClosed hc).onFinalByteOffsetReceived_error hW (hfin hf ▸ hn) hv'
      · cases hv'
    next hc =>
      exact (h.isOpen (Bool.eq_false_iff.2 hc)).onStreamFrame_error hW hn hv'
  | rstStream byteOffset =>
    obtain ⟨hn, hfin⟩ := hS _ rfl
    have hv' : v.receiveRstStream byteOffset = .error e := hv
    unfold Receiver.receiveRstStream at hv'
    split at hv'
    next hc =>
      rw [hfin rfl] at hv'
      exact (h.toClosed hc).onFinalByteOffsetReceived_error hW (hfin rfl ▸ hn) hv'
    next hc =>
      exact (h.isOpen (Bool.eq_false_iff.2 hc)).onStreamReset_error hW hn hv'
  | create | read | stopReading | reset | closeWriteSide => cases hv

end

end Receiver

namespace Ledger

theorem sum_update (ids : Finset Nat) (f : Nat → Nat) (i b : Nat) :
    ∑ j ∈ insert i ids, update f i b j = b + ∑ j ∈ ids.erase i, f j := by
  rw [sum_update_of_mem (mem_insert_self i ids), ← erase_eq, erase_insert_eq_erase]

theorem sum_eq_add_erase {ids : Finset Nat} {f : Nat → Nat} {i : Nat} (hf : i ∉ ids → f i = 0) :
    ∑ j ∈ ids, f j = f i + ∑ j ∈ ids.erase i, f j := by
  by_cases hi : i ∈ ids
  · exact (add_sum_erase ids f hi).symm
  · rw [hf hi, zero_add, erase_eq_of_notMem hi]

def account (l : Ledger) (id : Nat) : Receiver :=
  (l.session.receiver id).alone (l.charged id) (l.credited id)

structure Inv (P : Prop) (finalSize : Nat → Nat) (l : Ledger) : Prop where
  fresh : ∀ id, id ∉ l.ids → l.session.streams id = none ∧ l.sent id = 0 ∧ l.charged id = 0 ∧ l.credited id = 0
  credit : ∀ id, (l.account id).Credit ⟨P, finalSize id, l.sent id, l.session.flowController.receiveWindowOffset, 0, 0⟩
    (l.learned id)
  final : ∀ id, l.sent id ≤ finalSize id
  charged : l.session.flowController.highestReceivedByteOffset = ∑ id ∈ l.ids, l.charged id
  credited : l.session.flowController.bytesConsumed = ∑ id ∈ l.ids, l.credited id
  room : ∑ id ∈ l.ids, l.sent id ≤ l.session.flowController.receiveWindowOffset

section
variable {P : Prop} {finalSize : Nat → Nat}

variable {l : Ledger}

theorem Inv.charged_le (h : l.Inv P finalSize) (id : Nat) : l.charged id ≤ l.sent id := by
  obtain ⟨x, _, hx, hh, _⟩ := (h.credit id).share
  have hs : x ≤ l.sent id := hx
  have he : l.charged id = 0 + x := hh
  omega

theorem Inv.others_room (h : l.Inv P finalSize) {id n : Nat}
    (hn : ∑ j ∈ insert id l.ids, update l.sent id n j ≤ l.session.flowController.receiveWindowOffset) :
    ∑ j ∈ l.ids.erase id, l.charged j + n ≤ l.session.flowController.receiveWindowOffset := by
  rw [sum_update] at hn
  have hle : ∑ j ∈ l.ids.erase id, l.charged j ≤ ∑ j ∈ l.ids.erase id, l.sent j :=
    sum_le_sum fun j _ => h.charged_le j
  omega

variable {id : Nat}

theorem Inv.conforming (h : l.Inv P finalSize) {a : StreamAction} (he : l.enabled finalSize id a = true) :
    l.sentAfter id a ≤ finalSize id ∧ (∀ n ∈ a.sentTo, n ≤ l.sentAfter id a ∧ (a.isFinal = true → n = finalSize id)) ∧
      (l.account id).Credit ⟨P, finalSize id, l.sentAfter id a, l.session.flowController.receiveWindowOffset, 0, 0⟩
        (l.learned id) ∧
      ∑ j ∈ insert id l.ids, update l.sent id (l.sentAfter id a) j ≤ l.session.flowController.receiveWindowOffset := by
  have hc : l.conforms finalSize id a = true := (Bool.and_eq_true_iff.1 he).2
  unfold conforms at hc
  cases hn : a.sentTo with
  | none =>
    have hs : l.sentAfter id a = l.sent id := by
      rw [sentAfter, hn]
      exact max_eq_left (Nat.zero_le _)
    rw [hs]
    refine ⟨h.final id, fun n hn' => (by cases hn'), h.credit id, ?_⟩
    rw [update_eq_self, sum_insert_of_eq_zero_if_notMem fun hi => (h.fresh id hi).2.1]
    exact h.room
  | some n =>
    rw [hn] at hc
    simp only [Option.all_some, Bool.and_eq_true, decide_eq_true_eq, Bool.or_eq_true, Bool.not_eq_true',
      beq_iff_eq] at hc
    obtain ⟨⟨⟨hF, hfin⟩, hroom⟩, hsum⟩ := hc
    have hs : l.sentAfter id a = max (l.sent id) n := by
      rw [sentAfter, hn]
      rfl
    refine ⟨hs ▸ max_le (h.final id) hF, fun m hm => ?_, ?_, hsum⟩
    · cases hm
      refine ⟨hs ▸ le_max_right _ _, fun ha => ?_⟩
      rcases hfin with hf | hf
      · cases ha.symm.trans hf
      · exact hf
    · exact (h.credit id).mono (hs ▸ le_max_left _ _) hroom

theorem receiver_put (s : QuicSession) (id : Nat) (v : Receiver) : (s.put id v).receiver id = v := by
  simp [QuicSession.receiver, QuicSession.put]

theorem account_record_ne (l : Ledger) {id j : Nat} (hj : j ≠ id) (a : StreamAction) (v : Receiver) :
    (l.record id a v).account j = { l.account j with session := { v.session with
      highestReceivedByteOffset := l.charged j, bytesConsumed := l.credited j } } := by
  simp [account, Receiver.alone, record, QuicSession.receiver, QuicSession.put, hj]

theorem Inv.record {l : Ledger} (h : l.Inv P finalSize) {id : Nat} {a : StreamAction} {v : Receiver}
    (he : l.enabled finalSize id a = true) (hP : P → l.abandonsWhole (id, a))
    (hv : (l.session.receiver id).act a = .ok v) : (l.record id a v).Inv P finalSize := by
  obtain ⟨hF, hS, hacc, hsum⟩ := h.conforming he
  have hroom := h.others_room hsum
  have hh : l.session.flowController.highestReceivedByteOffset = ∑ j ∈ l.ids.erase id, l.charged j + l.charged id := by
    rw [h.charged, sum_eq_add_erase fun hi => (h.fresh id hi).2.2.1, add_comm]
  have hc : l.session.flowController.bytesConsumed = ∑ j ∈ l.ids.erase id, l.credited j + l.credited id := by
    rw [h.credited, sum_eq_add_erase fun hi => (h.fresh id hi).2.2.2, add_comm]
  obtain ⟨x, y, hx, hy, hvh, hvc, hrw, hout⟩ :=
    hacc.act_within hh hc hroom hF hS (fun hp ha => by subst ha; exact hP hp) hv
  have hcharged : (l.record id a v).charged = update l.charged id x := congrArg (update l.charged id) hx
  have hcredited : (l.record id a v).credited = update l.credited id y := congrArg (update l.credited id) hy
  constructor
  · intro j hj
    have hne : j ≠ id := fun hje => hj (hje ▸ mem_insert_self id l.ids)
    have hf := h.fresh j fun hji => hj (mem_insert_of_mem hji)
    simpa [Ledger.record, QuicSession.put, hne] using hf
  · intro j
    by_cases hj : j = id
    · subst hj
      have hl : (l.record j a v).learned j = (l.learned j || a.isFinal) := update_self ..
      have hs : (l.record j a v).sent j = l.sentAfter j a := update_self ..
      rw [account, hl, hs, hcharged, hcredited, update_self, update_self, Ledger.record, receiver_put]
      exact hout
    · have hl : (l.record id a v).learned j = l.learned j := update_of_ne hj ..
      have hs : (l.record id a v).sent j = l.sent j := update_of_ne hj ..
      rw [account_record_ne l hj, hl, hs]
      exact (h.credit j).rebase (fun z hz => hz) (fun z hz => hz) le_rfl
  · intro j
    by_cases hj : j = id
    · subst hj
      rw [show (l.record j a v).sent j = l.sentAfter j a from update_self ..]
      exact hF
    · rw [show (l.record id a v).sent j = l.sent j from update_of_ne hj ..]
      exact h.final j
  · rw [hcharged]
    exact hvh.trans ((add_comm _ _).trans (sum_update l.ids l.charged id x).symm)
  · rw [hcredited]
    exact hvc.trans ((add_comm _ _).trans (sum_update l.ids l.credited id y).symm)
  · exact le_trans hsum hrw

theorem step_inv {l l' : Ledger} {e : Nat × StreamAction} (h : l.Inv P finalSize) (hP : P → l.abandonsWhole e)
    (hs : l.step finalSize e = some l') : l'.Inv P finalSize := by
  obtain ⟨id, a⟩ := e
  unfold step at hs
  dsimp only at hs
  split at hs
  next he =>
    split at hs
    next v hv =>
      cases hs
      exact h.record he hP hv
    · cases hs
      exact { h with }
  · cases hs

theorem init_inv (sessionWindow streamWindow : Nat) : (init sessionWindow streamWindow).Inv P finalSize := by
  refine ⟨fun id _ => ⟨rfl, rfl, rfl, rfl⟩, fun id => .reading ?_, fun id => Nat.zero_le _, rfl, rfl, Nat.zero_le _⟩
  refine ⟨⟨rfl, rfl, rfl, le_rfl, le_rfl, Nat.zero_le _, le_rfl⟩, rfl, ?_, rfl, rfl, rfl, rfl⟩
  exact ⟨trivial, le_rfl, fun e he => absurd he List.not_mem_nil⟩

theorem Inv.credited_eq_consumed (h : l.Inv P finalSize) (hid : l.session.streams id ≠ none) :
    l.credited id = l.consumed id := by
  obtain ⟨s, hs⟩ := Option.ne_none_iff_exists'.1 hid
  obtain ⟨x, y, _, hx, hy, hxy⟩ := (h.credit id).share
  have hx' : l.charged id = 0 + x := hx
  have hy' : l.credited id = 0 + y := hy
  have hst : (l.account id).stream = s := by
    show (l.session.streams id).getD _ = s
    rw [hs]
    rfl
  rw [hst] at hxy
  rw [consumed, hs, hy', hx', zero_add, zero_add]
  exact hxy

theorem present_of_mem {sessionWindow streamWindow : Nat} {es : List (Nat × StreamAction)}
    (hr : Lts.run (step finalSize) (init sessionWindow streamWindow) es = some l) :
    ∀ id ∈ l.ids, l.session.streams id ≠ none := by
  refine Lts.run_inv (I := fun l => ∀ id ∈ l.ids, l.session.streams id ≠ none) (fun l e l' hi hs => ?_)
    (fun id hid => absurd hid (notMem_empty id)) hr
  obtain ⟨i, a⟩ := e
  unfold step at hs
  dsimp only at hs
  split at hs
  · split at hs
    next v hv =>
      cases hs
      intro j hj
      by_cases hji : j = i
      · subst hji
        simp [record, QuicSession.put]
      · simpa [record, QuicSession.put, hji] using hi j (mem_of_mem_insert_of_ne hj hji)
    · cases hs
      exact hi
  · cases hs

end

/-- **Credit.** The session's counters are the sums of what the streams have added. If no stream is abandoned with a
FIN ahead of missing data, every closed stream has added exactly its final size. -/
theorem credit_conserved {sessionWindow streamWindow : Nat} {finalSize : Nat → Nat} {es : List (Nat × StreamAction)}
    {l : Ledger} (hr : Lts.run (step finalSize) (init sessionWindow streamWindow) es = some l) :
    l.session.flowController.highestReceivedByteOffset = ∑ id ∈ l.ids, l.charged id ∧
      l.session.flowController.bytesConsumed = ∑ id ∈ l.ids, l.credited id ∧
      l.session.flowController.bytesConsumed = ∑ id ∈ l.ids, l.consumed id ∧
      (Lts.AllSteps (step finalSize) abandonsWhole (init sessionWindow streamWindow) es →
        ∀ id s, l.session.streams id = some s → s.closed = true → l.learned id = true →
          l.charged id = finalSize id ∧ l.credited id = finalSize id) := by
  have hi : l.Inv False finalSize := Lts.run_inv (fun _ _ _ h => step_inv h False.elim) (init_inv _ _) hr
  have hsum : ∑ id ∈ l.ids, l.credited id = ∑ id ∈ l.ids, l.consumed id :=
    Finset.sum_congr rfl fun id hid => hi.credited_eq_consumed (present_of_mem hr id hid)
  refine ⟨hi.charged, hi.credited, hi.credited.trans hsum, fun hc id s hs hcl hl => ?_⟩
  have hi' : l.Inv True finalSize :=
    Lts.run_inv_of (fun _ _ _ h hp => step_inv h fun _ => hp) (init_inv _ _) hc hr
  have hst : (l.account id).stream = s := by
    show (l.session.streams id).getD _ = s
    rw [hs]
    rfl
  obtain ⟨x, _, hx, hy, hlc⟩ := ((hi'.credit id).toClosed (hst ▸ hcl)).share
  have hx' : l.charged id = 0 + x := hx
  have hy' : l.credited id = 0 + x := hy
  rcases hlc with ⟨_, hl'⟩ | ⟨_, _, hF⟩
  · cases hl'.symm.trans hl
  · have hx : x = finalSize id := hF trivial
    omega

def threeSizes (id : Nat) : Nat := if id = 0 then 10 else if id = 4 then 6 else 8

def threeStreams : List (Nat × StreamAction) :=
  [(0, .streamFrame 6 4 true), (0, .streamFrame 0 6 false), (4, .streamFrame 0 3 false), (0, .read 512),
    (4, .stopReading), (4, .reset), (0, .closeWriteSide), (8, .streamFrame 2 2 false), (4, .streamFrame 3 3 true),
    (8, .stopReading), (8, .rstStream 8), (8, .reset)]

def threeStreamsEnd : Ledger := (Lts.run (step threeSizes) (init 100 40) threeStreams).getD (init 100 40)

theorem run_threeStreams : Lts.run (step threeSizes) (init 100 40) threeStreams = some threeStreamsEnd := by
  rfl

theorem credit_conserved_threeStreams : threeStreamsEnd.session.flowController.bytesConsumed = 24 ∧
    threeStreamsEnd.charged 4 = 6 ∧ threeStreamsEnd.credited 4 = 6 := by
  have h := credit_conserved run_threeStreams
  refine ⟨h.2.2.1.trans (by decide +kernel), ?_⟩
  exact h.2.2.2 (Lts.allSteps_of_check (by decide +kernel)) 4 _ rfl (by decide +kernel) (by decide +kernel)

def earlyFin : List (Nat × StreamAction) :=
  [(0, .streamFrame 0 4 false), (0, .streamFrame 10 0 true), (0, .stopReading), (0, .reset), (0, .streamFrame 4 6 true)]

/-- The stream is closed and its final size, 10, is known, but the session has counted 4 bytes. -/
theorem early_fin_leaks : ((Lts.run (step fun _ => 10) (init 100 40) earlyFin).any fun l =>
    (l.session.streams 0).any (·.closed) && l.learned 0 && l.session.error.isNone &&
      l.charged 0 == 4 && l.credited 0 == 4 &&
      (l.session.locallyClosedStreamsHighestOffset 0).isNone) = true := by
  decide +kernel

end Ledger

end Quictun
