import Quictun.SendBufferContract

/-!
# Acknowledgements of data that was never sent

`OnStreamDataAcked()` compares the number of new bytes in a range with the number of bytes outstanding,
not their positions. A range beyond what was sent is refused if it is long enough. A shorter one is
taken off the outstanding bytes, and then either accepted, if its beginning has been saved, or refused
when all but the queue has changed (`unsent_acked`).
-/

namespace Quictun

open QuicIntervalSet

namespace QuicStreamSendBufferInlining

variable {A P : Set Nat} {s : QuicStreamSendBufferInlining} {o n : Nat}

structure Unchanged (s s' : QuicStreamSendBufferInlining) : Prop where
  streamBytesOutstanding : s'.streamBytesOutstanding = s.streamBytesOutstanding
  bytesAcked : s'.bytesAcked = s.bytesAcked
  pendingRetransmissions : s'.pendingRetransmissions = s.pendingRetransmissions
  container : s'.intervalDeque.container = s.intervalDeque.container
  ownedSlices : s'.ownedSlices = s.ownedSlices

def RefusesUnsent (enabled : Bool) (s : QuicStreamSendBufferInlining) (o n : Nat) (probes : List Nat) : Prop :=
  ((s.onStreamDataAcked enabled o n probes).1 = false ↔ ∃ p ∈ Set.Ico o (o + n), s.streamBytesWritten ≤ p) ∧
    ((s.onStreamDataAcked enabled o n probes).1 = false → Unchanged s (s.onStreamDataAcked enabled o n probes).2.2)

def Telling (s : QuicStreamSendBufferInlining) (o n : Nat) : Prop :=
  o + n ≤ s.streamBytesWritten ∨ s.streamBytesOutstanding < (Set.Ico o (o + n) \ points s.bytesAcked).ncard

theorem exists_unsent (hn : 0 < n) : (∃ p ∈ Set.Ico o (o + n), s.streamBytesWritten ≤ p) ↔
    s.streamBytesWritten < o + n := by
  constructor
  · rintro ⟨p, hp, hle⟩
    exact lt_of_le_of_lt hle hp.2
  · intro hlt
    exact ⟨o + n - 1, ⟨by omega, by omega⟩, by omega⟩

theorem streamBytesOutstanding_freeAndCleanUp (s : QuicStreamSendBufferInlining) (start stop newlyAcked : Nat)
    (probes : List Nat) :
    (s.freeAndCleanUp start stop newlyAcked probes).2.2.streamBytesOutstanding = s.streamBytesOutstanding := by
  have hfree : (s.freeMemSlices start stop probes).2.streamBytesOutstanding = s.streamBytesOutstanding := by
    unfold freeMemSlices
    split
    · rfl
    split
    · rfl
    dsimp only
    split
    · rfl
    split <;> rfl
  unfold freeAndCleanUp
  dsimp only
  split <;> exact hfree

section
variable (h : Holds A P s) (enabled : Bool) (hn : 0 < n)
include h enabled hn

theorem Holds.refused (hlt : s.streamBytesOutstanding < (Set.Ico o (o + n) \ A).ncard)
    (probes : List Nat) : ∃ k, s.onStreamDataAcked enabled o n probes = (false, k, s) := by
  rcases h.onStreamDataAcked_cases enabled hn probes with ⟨hsub, -⟩ | ⟨-, hk⟩ | ⟨-, hle, -⟩
  · rw [Set.sdiff_eq_empty.2 hsub, Set.ncard_empty] at hlt
    exact absurd hlt (Nat.not_lt_zero _)
  · exact hk
  · exact absurd hlt (not_lt.2 hle)

theorem Holds.deducted (hlt : s.streamBytesWritten < o + n)
    (hle : (Set.Ico o (o + n) \ A).ncard ≤ s.streamBytesOutstanding) (probes : List Nat) :
    (s.onStreamDataAcked enabled o n probes).2.2.streamBytesOutstanding < s.streamBytesOutstanding := by
  rcases h.onStreamDataAcked_cases enabled hn probes with ⟨hsub, -⟩ | ⟨hgt, -⟩ |
    ⟨-, -, acked, start, stop, -, -, hstart, -, he⟩
  · have hmem : o + n - 1 ∈ Set.Ico o (o + n) := ⟨by omega, by omega⟩
    have := h.acked_lt (o + n - 1) (hsub hmem)
    omega
  · exact absurd hgt (not_lt.2 hle)
  · have hpos : 0 < (Set.Ico o (o + n) \ A).ncard :=
      (Set.ncard_pos ((Set.finite_Ico o (o + n)).subset Set.sdiff_subset)).2 ⟨start, hstart⟩
    rw [he, streamBytesOutstanding_freeAndCleanUp]
    dsimp only
    omega

theorem Holds.refusesUnsent_iff (probes : List Nat) :
    RefusesUnsent enabled s o n probes ↔ s.Telling o n := by
  unfold RefusesUnsent Telling
  rw [exists_unsent hn, h.acked]
  constructor
  · rintro ⟨hiff, hsame⟩
    by_contra hc
    rw [not_or, not_le, not_lt] at hc
    have hdec := h.deducted enabled hn hc.1 hc.2 probes
    have heq := (hsame (hiff.2 hc.1)).streamBytesOutstanding
    omega
  · rintro (hle | hlt)
    · obtain ⟨s', he, -⟩ := h.onStreamDataAcked enabled hle probes
      rw [he]
      exact ⟨iff_of_false (by simp) (not_lt.2 hle), nofun⟩
    · obtain ⟨k, he⟩ := h.refused enabled hn hlt probes
      rw [he]
      refine ⟨iff_of_true rfl ?_, fun _ => ⟨rfl, rfl, rfl, rfl, rfl⟩⟩
      by_contra hc
      exact absurd hlt (not_lt.2 (h.newly_le (not_lt.1 hc)))

end

/-! ## Runs -/

def stepAny (enabled : Bool) (maxDataSliceSize : Nat) (s : QuicStreamSendBufferInlining) :
    Ev → Option QuicStreamSendBufferInlining
  | .saveStreamData data => step enabled maxDataSliceSize s (.saveStreamData data)
  | .saveMemSlice slice => step enabled maxDataSliceSize s (.saveMemSlice slice)
  | .saveMemSliceSpan span => step enabled maxDataSliceSize s (.saveMemSliceSpan span)
  | .onStreamDataConsumed n => step enabled maxDataSliceSize s (.onStreamDataConsumed n)
  | .onStreamDataAcked o n probes => some (s.onStreamDataAcked enabled o n probes).2.2
  | .onStreamDataLost o n => some (s.onStreamDataLost o n)
  | .onStreamDataRetransmitted o n => step enabled maxDataSliceSize s (.onStreamDataRetransmitted o n)
  | .writeStreamData o n w => step enabled maxDataSliceSize s (.writeStreamData o n w)

/-- The condition on a step: an acknowledgement is of a range that the byte counts tell apart. -/
def AcksTelling (s : QuicStreamSendBufferInlining) : Ev → Prop
  | .onStreamDataAcked o n _ => s.Telling o n
  | .saveStreamData _ | .saveMemSlice _ | .saveMemSliceSpan _ | .onStreamDataConsumed _ | .onStreamDataLost _ _
  | .onStreamDataRetransmitted _ _ | .writeStreamData _ _ _ => True

theorem Holds.stepAny {enabled : Bool} {m : Nat} (hm : 0 < m) {e : Ev} {s' : QuicStreamSendBufferInlining}
    (h : Holds A P s)
    (ht : AcksTelling s e) (hs : stepAny enabled m s e = some s') : ∃ A' P', Holds A' P' s' := by
  cases e with
  | saveStreamData data =>
    cases hs
    exact ⟨A, P, (h.saveStreamData hm data).1⟩
  | saveMemSlice slice =>
    cases hs
    exact ⟨A, P, (h.saveMemSlice slice).1⟩
  | saveMemSliceSpan span =>
    cases hs
    exact ⟨A, P, (h.saveMemSliceSpan span).1⟩
  | onStreamDataConsumed k =>
    obtain ⟨hg, ⟨⟩⟩ := Option.ite_none_right_eq_some.1 hs
    exact ⟨A, P, h.onStreamDataConsumed hg⟩
  | onStreamDataAcked o k probes =>
    cases hs
    rcases ht with hle | hlt
    · obtain ⟨t, ht, hh, -⟩ := h.onStreamDataAcked enabled hle probes
      rw [ht]
      exact ⟨_, _, hh⟩
    · have hk : 0 < k := by
        rcases Nat.eq_zero_or_pos k with rfl | hk
        · simp at hlt
        · exact hk
      rw [h.acked] at hlt
      obtain ⟨j, he⟩ := h.refused enabled hk hlt probes
      rw [he]
      exact ⟨A, P, h⟩
  | onStreamDataLost o k =>
    cases hs
    exact ⟨_, _, h.onStreamDataLost o k⟩
  | onStreamDataRetransmitted o k =>
    cases hs
    exact ⟨_, _, h.onStreamDataRetransmitted o k⟩
  | writeStreamData o k w =>
    cases hs
    exact ⟨A, P, h.writeStreamData o k w⟩

/-- **Unsent data.** After a run in which the byte counts told every acknowledgement apart, the next one
is answered rightly if and only if they tell it apart, too. -/
theorem unsent_refused (enabled : Bool) {m : Nat} (hm : 0 < m) {es : List Ev}
    (ha : Lts.AllSteps (QuicStreamSendBufferInlining.stepAny enabled m) AcksTelling {} es)
    (hr : Lts.run (QuicStreamSendBufferInlining.stepAny enabled m) {} es = some s) (hn : 0 < n) (probes : List Nat) :
    RefusesUnsent enabled s o n probes ↔ s.Telling o n := by
  have hinv : ∃ A P, Holds A P s :=
    Lts.run_inv_of (I := fun s => ∃ A P, Holds A P s) (fun s e s' ⟨A, P, h⟩ ht hs => h.stepAny hm ht hs) ⟨∅, ∅,
      holds_fresh⟩ ha hr
  obtain ⟨A, P, h⟩ := hinv
  exact h.refusesUnsent_iff enabled hn probes

def halfSent : List Ev := [.saveStreamData (List.replicate 20 7), .onStreamDataConsumed 10, .onStreamDataAcked 0 30 []]

theorem unsent_refused_halfSent : ∃ s, Lts.run (QuicStreamSendBufferInlining.stepAny true 4096) {} halfSent = some s ∧
    s.streamBytesOutstanding = 10 ∧ RefusesUnsent true s 3 20 [] := by
  have hr : Lts.run (QuicStreamSendBufferInlining.stepAny true 4096) {} halfSent = some _ := rfl
  have hcard : ∀ a b, (Set.Ico a b \ points []).ncard = b - a := by
    intro a b
    rw [points_nil, Set.sdiff_empty, ncard_Ico]
  have ha : Lts.AllSteps (QuicStreamSendBufferInlining.stepAny true 4096) AcksTelling {} halfSent := by
    refine ⟨trivial, fun s₁ h1 => ⟨trivial, fun s₂ h2 => ⟨?_, fun _ _ => trivial⟩⟩⟩
    cases h1
    cases h2
    right
    change 10 < (Set.Ico 0 (0 + 30) \ points []).ncard
    rw [hcard]
    decide
  refine ⟨_, hr, rfl, (unsent_refused true (by decide) ha hr (by decide) []).2 (.inr ?_)⟩
  change 10 < (Set.Ico 3 (3 + 20) \ points []).ncard
  rw [hcard]
  decide

/-- Ten bytes of twenty have been sent. An acknowledgement of the bytes 5 to 14 is accepted. One of the bytes
100 to 104 is refused, after five bytes have been taken off the outstanding ones. -/
theorem unsent_acked : ∃ s, Lts.run (QuicStreamSendBufferInlining.stepAny true 4096) {}
      [.saveStreamData (List.replicate 20 7), .onStreamDataConsumed 10] = some s ∧ s.streamBytesWritten = 10 ∧
    (s.onStreamDataAcked true 5 10 []).1 = true ∧
    (s.onStreamDataAcked true 100 5 []).1 = false ∧ (s.onStreamDataAcked true 100 5 []).2.2.streamBytesOutstanding = 5 ∧
    ¬ RefusesUnsent true s 5 10 [] ∧ ¬ RefusesUnsent true s 100 5 [] := by
  refine ⟨_, rfl, rfl, rfl, rfl, rfl, fun h => ?_, fun h => ?_⟩
  · cases h.1.2 ⟨10, ⟨by decide, by decide⟩, le_refl 10⟩
  · have := (h.2 rfl).streamBytesOutstanding
    cases this

end QuicStreamSendBufferInlining

end Quictun
