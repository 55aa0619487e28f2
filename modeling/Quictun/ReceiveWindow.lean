import Quictun.ReceiveStream

/-!
# Receive windows

How the receiving flow controllers move. Whatever happens to a stream, its own controller
and the session's change only through `UpdateHighestReceivedOffset()` and
`AddBytesConsumed()`, and each of the latter leaves between half a window and a whole one
open, provided the peer has not sent more than it was allowed to.
-/

namespace Quictun

namespace QuicFlowController

variable (f : QuicFlowController)

theorem addBytesConsumed_eq (n : Nat) : (f.addBytesConsumed n).bytesConsumed = f.bytesConsumed + n ∧
      (f.addBytesConsumed n).highestReceivedByteOffset = f.highestReceivedByteOffset ∧
      f.receiveWindowOffset ≤ (f.addBytesConsumed n).receiveWindowOffset := by
  unfold addBytesConsumed maybeSendWindowUpdate
  split
  · exact ⟨rfl, rfl, le_rfl⟩
  · exact ⟨rfl, rfl, Nat.le_add_right _ _⟩

theorem updateHighestReceivedOffset_eq (n : Nat) :
    f.updateHighestReceivedOffset n = { f with highestReceivedByteOffset := max f.highestReceivedByteOffset n } := by
  unfold updateHighestReceivedOffset
  split
  next h => rw [max_eq_left h]
  next h => rw [max_eq_right (Nat.le_of_not_le h)]

structure InBounds (f : QuicFlowController) : Prop where
  consumed_le : f.bytesConsumed ≤ f.receiveWindowOffset
  half_le : f.receiveWindowSize / 2 ≤ f.receiveWindowOffset - f.bytesConsumed
  le_size : f.receiveWindowOffset - f.bytesConsumed ≤ f.receiveWindowSize

/-- `f` has become the controller after calls of `UpdateHighestReceivedOffset()`, and of
`AddBytesConsumed()` that each ended within bounds. -/
inductive Evolves (f : QuicFlowController) : QuicFlowController → Prop
  | refl : f.Evolves f
  | received {g : QuicFlowController} (h : f.Evolves g) (n : Nat) : f.Evolves (g.updateHighestReceivedOffset n)
  | consumed {g : QuicFlowController} (h : f.Evolves g) (n : Nat) (hb : (g.addBytesConsumed n).InBounds) :
      f.Evolves (g.addBytesConsumed n)

theorem inBounds_addBytesConsumed {f : QuicFlowController} (h : f.InBounds) {n : Nat}
    (hn : f.bytesConsumed + n ≤ f.receiveWindowOffset) : (f.addBytesConsumed n).InBounds := by
  have hle := h.le_size
  unfold addBytesConsumed maybeSendWindowUpdate availableWindow
  split
  next hhalf =>
    refine ⟨hn, hhalf, ?_⟩
    dsimp only
    omega
  next hhalf =>
    refine ⟨?_, ?_, ?_⟩ <;> dsimp only at hhalf ⊢ <;> omega

theorem Evolves.trans {f g k : QuicFlowController} (h1 : f.Evolves g) (h2 : g.Evolves k) : f.Evolves k := by
  induction h2 with
  | refl => exact h1
  | received _ n ih => exact ih.received n
  | consumed _ n hb ih => exact ih.consumed n hb

theorem Evolves.inBounds {f g : QuicFlowController} (h : f.Evolves g) (hf : f.InBounds) : g.InBounds := by
  induction h with
  | refl => exact hf
  | received _ n ih =>
    rw [updateHighestReceivedOffset_eq]
    exact { ih with }
  | consumed _ n hb _ => exact hb

theorem Evolves.offset_le {f g : QuicFlowController} (h : f.Evolves g) :
    f.receiveWindowOffset ≤ g.receiveWindowOffset := by
  induction h with
  | refl => exact le_rfl
  | received _ n ih =>
    rw [updateHighestReceivedOffset_eq]
    exact ih
  | @consumed g _ n _ ih => exact le_trans ih (g.addBytesConsumed_eq n).2.2

end QuicFlowController

namespace Receiver

structure Flows (v v' : Receiver) : Prop where
  stream : v.stream.flowController.Evolves v'.stream.flowController
  session : v.session.Evolves v'.session

structure Windows (v : Receiver) : Prop where
  stream : v.stream.flowController.InBounds
  session : v.session.InBounds

theorem Flows.refl (v : Receiver) : v.Flows v := ⟨.refl, .refl⟩

theorem Flows.trans {v w u : Receiver} (h1 : v.Flows w) (h2 : w.Flows u) : v.Flows u :=
  ⟨h1.stream.trans h2.stream, h1.session.trans h2.session⟩

theorem Windows.flows {v v' : Receiver} (hb : v.Windows) (h : v.Flows v') : v'.Windows :=
  ⟨h.stream.inBounds hb.stream, h.session.inBounds hb.session⟩

theorem Windows.addBytesConsumed {v : Receiver} (hb : v.Windows) {n : Nat} (hs : v.stream.readSideClosed = false →
      v.stream.flowController.bytesConsumed + n ≤ v.stream.flowController.receiveWindowOffset)
    (hc : v.session.bytesConsumed + n ≤ v.session.receiveWindowOffset) : v.Flows (v.addBytesConsumed n) := by
  refine ⟨?_, .consumed .refl n (QuicFlowController.inBounds_addBytesConsumed hb.session hc)⟩
  by_cases hr : v.stream.readSideClosed = true
  · rw [Receiver.addBytesConsumed, if_pos hr]
    exact .refl
  · rw [Receiver.addBytesConsumed, if_neg hr]
    exact .consumed .refl n (QuicFlowController.inBounds_addBytesConsumed hb.stream (hs (Bool.eq_false_iff.2 hr)))

theorem flows_increase (v : Receiver) (n : Nat) : v.Flows (v.maybeIncreaseHighestReceivedOffset n) := by
  unfold maybeIncreaseHighestReceivedOffset
  split
  · exact .refl v
  · exact ⟨.received .refl _, .received .refl _⟩

end Receiver

end Quictun
