import Mathlib.Logic.Function.Basic
import Quictun.ReceiveStream
import Quictun.Run
import Quictun.SendStream

/-!
# The write-blocked list

`QuicSession` as the scheduler of its streams' writes. A stream that cannot send all it has
puts itself on the write-blocked list; a pass of `OnCanWrite()` takes streams off the list
one by one and lets each write. Which stream of the list comes next is the scheduler's
choice, and the application may write at any time, also from the callback of a stream whose
turn it is.
-/

namespace Quictun

open Option Function

structure SendSession where
  streams : Nat → Option SendStream := fun _ => none
  connection : SendFlowController
  writeBlocked : List Nat := []
  currentlyWriting : Option Nat := none
  /-- The turns that are left of the current `OnCanWrite()` pass. -/
  writesLeft : Option Nat := none
  connected : Bool := true

namespace SendSession

inductive Event where
  | open (id sendWindowOffset : Nat)
  | closeStream (id : Nat)
  | writeOrBufferData (id length : Nat) (fin mayYield : Bool) (d : QuicConsumedData)
  | windowUpdate (id maxData : Nat)
  | connectionWindowUpdate (maxData : Nat)
  | onCanWrite
  | turn (id : Nat) (d : QuicConsumedData)
  | endTurn
  | endPass
deriving DecidableEq

section
variable (s : SendSession)

/-- The ready streams ahead of `id` decide, which is `mayYield`; without another one on the list there are none. -/
def shouldYield (id : Nat) (mayYield : Bool) : Bool :=
  s.currentlyWriting != some id && mayYield && s.writeBlocked.any (· != id)

def markWriteBlocked (id : Nat) : SendSession :=
  if id ∈ s.writeBlocked then s else { s with writeBlocked := s.writeBlocked ++ [id] }

def pop (id : Nat) : SendSession := { s with writeBlocked := s.writeBlocked.filter (· ≠ id) }

def setStream (id : Nat) (st : Option SendStream) : SendSession :=
  { s with streams := update s.streams id st }

def wrote (id : Nat) (r : WriteResult) : SendSession :=
  let s₁ := { s.setStream id (some r.stream) with connection := r.connection }
  if r.marked then s₁.markWriteBlocked id else s₁

def windowUpdate (id : Nat) (st : SendStream) (maxData : Nat) : SendSession :=
  let u := st.flowController.updateSendWindowOffset maxData
  let s₁ := s.setStream id (some { st with flowController := u.1 })
  if u.2 then s₁.markWriteBlocked id else s₁

/-- One round of the loop of `OnCanWrite()`: a stream whose own window is used up does not get to write. -/
def turn (id : Nat) (d : QuicConsumedData) : SendSession :=
  let s₁ := { s.pop id with currentlyWriting := some id, writesLeft := s.writesLeft.map (· - 1) }
  match s.streams id with
  | none => s₁
  | some st =>
    if st.flowController.isBlocked then s₁
    else s₁.wrote id (st.onCanWrite s.connection false d)

def step (e : Event) : Option SendSession :=
  if s.connected = false then none
  else match e with
    | .open id offset =>
      if s.streams id =
        none then some (s.setStream id (some { flowController := { sendWindowOffset := offset } })) else none
    | .closeStream id => some ((s.pop id).setStream id none)
    | .writeOrBufferData id length fin mayYield d =>
      (s.streams id).map fun st =>
        if st.finBuffered = false ∧ st.writeSideClosed = false ∧ kMaxStreamLength - st.streamOffset < length then
          { s with connected := false }
        else s.wrote id (st.writeOrBufferData s.connection length fin (s.shouldYield id mayYield) d)
    | .windowUpdate id maxData => (s.streams id).map fun st => s.windowUpdate id st maxData
    | .connectionWindowUpdate maxData => some { s with connection := (s.connection.updateSendWindowOffset maxData).1 }
    | .onCanWrite =>
      if s.writesLeft = none then
        some { s with writesLeft := some (if s.connection.isBlocked then 0 else s.writeBlocked.length) }
      else none
    | .turn id d =>
      if s.currentlyWriting = none ∧ s.writesLeft.any (0 < ·) then
        if s.writeBlocked = [] then some { s with connected := false }
        else if id ∈ s.writeBlocked then some (s.turn id d)
        else none
      else none
    | .endTurn => if s.currentlyWriting = none then none else some { s with currentlyWriting := none }
    | .endPass => if s.currentlyWriting = none ∧ s.writesLeft.isSome then some { s with writesLeft := none } else none

def init (sendWindowOffset : Nat) : SendSession := { connection := { sendWindowOffset := sendWindowOffset } }

/-! ## What one step keeps -/

def Settled (id : Nat) : Prop :=
  ∀ st, s.streams id = some st → st.Pending → id ∈ s.writeBlocked ∨ st.Excused

end

variable {s : SendSession} {id id' : Nat}

theorem mem_markWriteBlocked : id' ∈ (s.markWriteBlocked id).writeBlocked ↔ id' ∈ s.writeBlocked ∨ id' = id := by
  unfold markWriteBlocked
  split
  next h =>
    constructor
    · exact .inl
    · rintro (h' | rfl)
      · exact h'
      · exact h
  · simp

@[simp] theorem streams_markWriteBlocked (s : SendSession) (id : Nat) :
    (s.markWriteBlocked id).streams = s.streams := by
  unfold markWriteBlocked
  by_cases h : id ∈ s.writeBlocked <;> simp [h]

variable {st : SendStream}

theorem settled_replace {marked : Bool} (hothers : ∀ id', id' ≠ id → s.Settled id')
    (h : st.Pending → (id ∈ s.writeBlocked ∨ marked = true) ∨ st.Excused) {s₁ : SendSession}
    (hstreams : s₁.streams = update s.streams id (some st)) (hlist : s₁.writeBlocked = s.writeBlocked) (id' : Nat) :
    (if marked then s₁.markWriteBlocked id else s₁).Settled id' := by
  have hs : (if marked then s₁.markWriteBlocked id else s₁).streams = update s.streams id (some st) := by
    cases marked <;> simp [hstreams]
  have hl : id' ∈ s.writeBlocked ∨ (marked = true ∧ id' = id) →
      id' ∈ (if marked then s₁.markWriteBlocked id else s₁).writeBlocked := by
    cases marked <;> simp [mem_markWriteBlocked, hlist]
  intro st' hst hp
  rw [hs] at hst
  by_cases hid : id' = id
  · subst hid
    rw [update_self, some.injEq] at hst
    subst hst
    rcases h hp with (hm | hm) | he
    · exact .inl (hl (.inl hm))
    · exact .inl (hl (.inr ⟨hm, rfl⟩))
    · exact .inr he
  · rw [update_of_ne hid] at hst
    exact (hothers id' hid st' hst hp).imp_left fun hm => hl (.inl hm)

theorem settled_wrote {r : WriteResult} (hothers : ∀ id', id' ≠ id → s.Settled id')
    (h : r.stream.Pending → (id ∈ s.writeBlocked ∨ r.marked = true) ∨ r.stream.Excused) (id' : Nat) :
    (s.wrote id r).Settled id' := by
  unfold wrote
  apply settled_replace hothers h
  · rfl
  · rfl

theorem settled_windowUpdate (hs : ∀ id, s.Settled id)
    (hst : s.streams id = some st) (maxData : Nat) (id' : Nat) : (s.windowUpdate id st maxData).Settled id' := by
  have h : ({ st with flowController := (st.flowController.updateSendWindowOffset maxData).1 } : SendStream).Pending →
      (id ∈ s.writeBlocked ∨ (st.flowController.updateSendWindowOffset maxData).2 = true) ∨
        ({ st with flowController := (st.flowController.updateSendWindowOffset maxData).1 } : SendStream).Excused := by
    intro hp
    rcases hs id st hst hp with hm | ⟨hd, hb⟩
    · exact .inl (.inl hm)
    · unfold SendFlowController.updateSendWindowOffset
      split
      · exact .inr ⟨hd, hb⟩
      · exact .inl (.inr hb)
  unfold windowUpdate
  apply settled_replace (fun id' _ => hs id') h
  · rfl
  · rfl

theorem settled_pop (h : s.Settled id') (hne : id' ≠ id) : (s.pop id).Settled id' := by
  intro st hst hp
  refine (h st hst hp).imp_left fun hm => ?_
  simp [pop, hm, hne]

/-- A turn given to a stream whose own window is used up finds no bare FIN there. -/
def NoBareFin (s : SendSession) : Event → Prop
  | .turn id _ => ∀ st ∈ s.streams id, st.flowController.isBlocked = true → st.Pending → st.hasBufferedData = true
  | _ => True

instance (s : SendSession) (e : Event) : Decidable (s.NoBareFin e) := by
  cases e <;> unfold NoBareFin <;> infer_instance

theorem settled_turn (hs : ∀ id, s.Settled id) {d : QuicConsumedData}
    (hfin : s.NoBareFin (.turn id d)) (id' : Nat) : (s.turn id d).Settled id' := by
  have hothers : ∀ id', id' ≠ id → (s.pop id).Settled id' := fun id' hne => settled_pop (hs id') hne
  unfold turn
  cases hst : s.streams id with
  | none =>
    by_cases hid : id' = id
    · subst hid
      intro st' hst'
      exact absurd (hst'.symm.trans hst) (by simp)
    · exact hothers id' hid
  | some st =>
    by_cases hb : st.flowController.isBlocked = true
    · simp only [if_pos hb]
      by_cases hid : id' = id
      · subst hid
        intro st' hst' hp
        obtain rfl : st' = st := some.inj (hst'.symm.trans hst)
        exact .inr ⟨hfin st' hst hb hp, hb⟩
      · exact hothers id' hid
    · simp only [if_neg hb]
      refine settled_wrote ?_ ?_ id'
      · exact hothers
      intro hp
      exact (st.tracked_onCanWrite s.connection false d hp).imp_left .inr

theorem settled_step {s s' : SendSession} {e : Event} (hs : ∀ id, s.Settled id) (hfin : s.NoBareFin e)
    (h : s.step e = some s') : ∀ id, s'.Settled id := by
  intro id'
  unfold step at h
  obtain ⟨-, h⟩ := ite_none_left_eq_some.1 h
  cases e with
  | «open» id offset =>
    obtain ⟨-, ⟨⟩⟩ := ite_none_right_eq_some.1 h
    intro st hst hp
    by_cases hid : id' = id
    · subst hid
      simp only [setStream, update_self, some.injEq] at hst
      subst hst
      simp [SendStream.Pending, SendStream.hasBufferedData] at hp
    · exact hs id' st (by simpa [setStream, hid] using hst) hp
  | closeStream id =>
    cases h
    intro st hst hp
    by_cases hid : id' = id
    · subst hid
      simp [setStream] at hst
    · exact settled_pop (hs id') hid st (by simpa [setStream, pop, hid] using hst) hp
  | writeOrBufferData id length fin mayYield d =>
    obtain ⟨st, hst, rfl⟩ := map_eq_some_iff.1 h
    split
    · exact hs id'
    · exact settled_wrote (fun id' _ => hs id') (SendStream.tracked_writeOrBufferData (hs id st hst) length fin _ d) id'
  | windowUpdate id maxData =>
    obtain ⟨st, hst, rfl⟩ := map_eq_some_iff.1 h
    exact settled_windowUpdate hs hst maxData id'
  | connectionWindowUpdate maxData =>
    cases h
    exact hs id'
  | onCanWrite =>
    obtain ⟨-, ⟨⟩⟩ := ite_none_right_eq_some.1 h
    exact hs id'
  | turn id d =>
    obtain ⟨-, h⟩ := ite_none_right_eq_some.1 h
    split at h
    · cases h
      exact hs id'
    · obtain ⟨-, ⟨⟩⟩ := ite_none_right_eq_some.1 h
      exact settled_turn hs hfin id'
  | endTurn =>
    obtain ⟨-, ⟨⟩⟩ := ite_none_left_eq_some.1 h
    exact hs id'
  | endPass =>
    obtain ⟨-, ⟨⟩⟩ := ite_none_right_eq_some.1 h
    exact hs id'

/-! ## Whole runs -/

/-- **No stream with something to send is forgotten**, if no turn meets a bare FIN on a stream
whose window is used up. -/
theorem none_forgotten {sendWindowOffset : Nat} {es : List Event} {s : SendSession}
    (hrun : Lts.run step (init sendWindowOffset) es = some s)
    (hfin : Lts.AllSteps step NoBareFin (init sendWindowOffset) es) {id : Nat} {st : SendStream}
    (hst : s.streams id = some st) (hp : st.Pending) :
    id ∈ s.writeBlocked ∨ (st.hasBufferedData = true ∧ st.flowController.isBlocked = true) := by
  have h0 : ∀ id, (init sendWindowOffset).Settled id := by
    intro id st hst
    cases hst
  exact Lts.run_inv_of (fun s e s' hs hP he => settled_step hs hP he) h0 hfin hrun id st hst hp

def takingTurns : List Event :=
  [.open 4 20, .open 8 20, .writeOrBufferData 4 15 true false ⟨10, false⟩, .writeOrBufferData 8 5 false true ⟨0, false⟩,
    .connectionWindowUpdate 12, .onCanWrite, .turn 8 ⟨2, false⟩, .endTurn, .endPass]

theorem none_forgotten_takingTurns : ∃ s st, Lts.run step (init 10) takingTurns = some s ∧ s.streams 8 = some st ∧
    st.Pending ∧ (8 ∈ s.writeBlocked ∨ (st.hasBufferedData = true ∧ st.flowController.isBlocked = true)) := by
  refine ⟨_, { streamBytesWritten := 2, bufferedDataBytes := 3, flowController := ⟨2, 20⟩ }, rfl, rfl, by decide, ?_⟩
  exact @none_forgotten 10 takingTurns _ rfl (Lts.allSteps_of_check (by decide +kernel)) 8 _ rfl (by decide)

def bareFin : List Event :=
  [.open 4 10, .writeOrBufferData 4 10 false false ⟨10, false⟩, .writeOrBufferData 4 0 true false ⟨0, false⟩,
    .onCanWrite, .turn 4 ⟨0, true⟩, .endTurn, .endPass]

/-- The session takes such a stream off the list and does not let it write: the FIN, which needs no
window, is left behind. -/
theorem forgotten_bareFin : ∃ s st, Lts.run step (init 100) bareFin = some s ∧
    s.connected = true ∧ s.writesLeft = none ∧ s.connection.isBlocked = false ∧
    s.streams 4 = some st ∧ st.Pending ∧ st.finBuffered = true ∧ st.finSent = false ∧ st.hasBufferedData = false ∧
    s.writeBlocked = [] := by
  refine ⟨_, { streamBytesWritten := 10, finBuffered := true, flowController := ⟨10, 10⟩ }, rfl, ?_⟩
  decide +kernel

end SendSession

end Quictun
