import Mathlib.Data.List.Nodup
import Quictun.IntervalSet
import Quictun.Run

/-!
# The packets of one packet number space

`QuicReceivedPacketManager` keeps the numbers it has received as the ranges of the next ACK
frame, and the same ranges tell a copy from a new packet. What the peer no longer waits for
goes together with a lower bound that turns its copies away; beyond `max_ack_ranges_` ranges
the smallest one goes without a trace.
-/

namespace Quictun

open IntervalSet List

def kMaxAckRanges : Nat := 255

structure QuicReceivedPacketManager where
  maxAckRanges : Nat
  /-- `ack_frame_.packets` and `ack_frame_.largest_acked`. -/
  packets : IntervalSet := []
  largestAcked : Option Nat := none
  ackFrameUpdated : Bool := false
  wasLastPacketMissing : Bool := false
  leastReceivedPacketNumber : Option Nat := none
  peerLeastPacketAwaitingAck : Option Nat := none
  /-- The numbers that were processed, the last one first (history only). -/
  accepted : List Nat := []

namespace QuicReceivedPacketManager

section
variable (m : QuicReceivedPacketManager)

def isMissing (n : Nat) : Bool :=
  m.largestAcked.any (fun l => n < l) && !m.packets.contains n

def isAwaitingPacket (n : Nat) : Bool :=
  m.peerLeastPacketAwaitingAck.all (fun l => l ≤ n) && !m.packets.contains n

def trimRanges (limit : Nat) : IntervalSet → IntervalSet
  | [] => []
  | e :: l => if 0 < limit ∧ limit < (e :: l).length then trimRanges limit l else e :: l

def maybeTrimAckRanges : QuicReceivedPacketManager :=
  { m with packets := trimRanges m.maxAckRanges m.packets }

def recordPacketReceived (n : Nat) : QuicReceivedPacketManager :=
  let m := { m with
    wasLastPacketMissing := m.isMissing n
    ackFrameUpdated := true
    largestAcked := some ((m.largestAcked.map (max n)).getD n)
    packets := m.packets.add n (n + 1) }
  let m := m.maybeTrimAckRanges
  { m with leastReceivedPacketNumber := some ((m.leastReceivedPacketNumber.map (min n)).getD n) }

/-- An authenticated packet: turned away by `ValidateReceivedPacketNumber()`, or processed
and recorded. -/
def processPacket (n : Nat) : QuicReceivedPacketManager :=
  if m.isAwaitingPacket n then { m.recordPacketReceived n with accepted := n :: m.accepted } else m

def dontWaitForPacketsBefore : Option Nat → QuicReceivedPacketManager
  | none => m
  | some least =>
    if m.peerLeastPacketAwaitingAck.all (fun l => l < least) then
      { m with
        peerLeastPacketAwaitingAck := some least
        packets := m.packets.trimLessThan least
        ackFrameUpdated := m.ackFrameUpdated || m.packets.any (fun e => e.1 < least) }
    else m

def getUpdatedAckFrame : IntervalSet × QuicReceivedPacketManager :=
  (m.maybeTrimAckRanges.packets, m.maybeTrimAckRanges)

end

inductive Ev
  | packet (number : Nat)
  | dontWaitForPacketsBefore (leastUnacked : Option Nat)
  | getUpdatedAckFrame

def step (m : QuicReceivedPacketManager) : Ev → Option QuicReceivedPacketManager
  | .packet n => some (m.processPacket n)
  | .dontWaitForPacketsBefore l => some (m.dontWaitForPacketsBefore l)
  | .getUpdatedAckFrame => some m.getUpdatedAckFrame.2

def RoomFor (m : QuicReceivedPacketManager) : Ev → Prop
  | .packet n => m.isAwaitingPacket n = true → m.maxAckRanges = 0 ∨ m.packets.length < m.maxAckRanges ∨
      ∃ e ∈ m.packets, e.1 ≤ n + 1 ∧ n ≤ e.2
  | _ => True

instance : ∀ m e, Decidable (RoomFor m e)
  | m, .packet n => by unfold RoomFor; infer_instance
  | _, .dontWaitForPacketsBefore _ => .isTrue trivial
  | _, .getUpdatedAckFrame => .isTrue trivial

/-! ## What each call does to the numbers still awaited -/

variable {m : QuicReceivedPacketManager} {n : Nat}

theorem isAwaitingPacket_eq_false : m.isAwaitingPacket n = false ↔
      (∃ l, m.peerLeastPacketAwaitingAck = some l ∧ n < l) ∨ m.packets.contains n = true := by
  cases h : m.peerLeastPacketAwaitingAck with
  | none => simp [isAwaitingPacket, h]
  | some l =>
    simp only [isAwaitingPacket, h, Option.all_some, Bool.and_eq_false_iff, decide_eq_false_iff_not,
      Bool.not_eq_false', not_le, Option.some.injEq]
    constructor
    · exact fun h => h.imp_left fun h' => ⟨l, rfl, h'⟩
    · rintro (⟨k, rfl, h'⟩ | h')
      · exact .inl h'
      · exact .inr h'

variable {limit : Nat}

theorem trimRanges_of_fits : ∀ {l : IntervalSet}, limit = 0 ∨ l.length ≤ limit → trimRanges limit l = l
  | [], _ => rfl
  | e :: l, h => by
    rw [trimRanges, if_neg]
    omega

structure Inv (m : QuicReceivedPacketManager) : Prop where
  canonical : m.packets.Canonical
  fits : m.maxAckRanges = 0 ∨ m.packets.length ≤ m.maxAckRanges
  accepted : ∀ n ∈ m.accepted, m.isAwaitingPacket n = false
  nodup : m.accepted.Nodup

theorem Inv.fits_add (h : Inv m) (ha : m.isAwaitingPacket n = true)
    (hc : RoomFor m (.packet n)) : m.maxAckRanges = 0 ∨ (m.packets.add n (n + 1)).length ≤ m.maxAckRanges := by
  rcases hc ha with h0 | hlt | ht
  · exact .inl h0
  · exact .inr (le_trans (length_add_le _ _ _) hlt)
  · exact h.fits.imp_right fun hf => le_trans (length_add_le_of_touches h.canonical ht) hf

theorem packets_recordPacketReceived (m : QuicReceivedPacketManager) (n : Nat) :
    (m.recordPacketReceived n).packets = trimRanges m.maxAckRanges (m.packets.add n (n + 1)) := rfl

theorem Inv.processPacket {m : QuicReceivedPacketManager} {n : Nat} (h : Inv m) (hc : RoomFor m (.packet n)) :
    Inv (m.processPacket n) := by
  rw [QuicReceivedPacketManager.processPacket]
  split
  next ha =>
    have hfit := h.fits_add ha hc
    have hp : (m.recordPacketReceived n).packets = m.packets.add n (n + 1) := by
      rw [packets_recordPacketReceived, trimRanges_of_fits hfit]
    have hmem : ∀ k, (m.recordPacketReceived n).packets.contains k = true ↔
        (n ≤ k ∧ k < n + 1) ∨ m.packets.contains k = true := by
      intro k
      rw [hp, contains_add (Nat.le_succ n) h.canonical]
    refine ⟨?_, ?_, ?_, ?_⟩
    · simp only [hp]
      exact canonical_add (Nat.lt_succ_self n) h.canonical
    · simp only [hp]
      exact hfit
    · intro k hk
      apply isAwaitingPacket_eq_false.2
      rcases mem_cons.1 hk with rfl | hk
      · exact .inr ((hmem k).2 (.inl ⟨le_refl k, Nat.lt_succ_self k⟩))
      · exact (isAwaitingPacket_eq_false.1 (h.accepted k hk)).imp_right fun hc => (hmem k).2 (.inr hc)
    · apply nodup_cons.2
      refine ⟨?_, h.nodup⟩
      intro hn
      rw [h.accepted n hn] at ha
      exact Bool.false_ne_true ha
  · exact h

theorem Inv.dontWaitForPacketsBefore {m : QuicReceivedPacketManager} (h : Inv m) (l : Option Nat) :
    Inv (m.dontWaitForPacketsBefore l) := by
  cases l with
  | none => exact h
  | some least =>
    rw [QuicReceivedPacketManager.dontWaitForPacketsBefore]
    split
    next hl =>
      refine ⟨canonical_trimLessThan h.canonical,
        h.fits.imp_right fun hf => le_trans (length_trimLessThan_le _ _) hf, ?_, h.nodup⟩
      -- the bound only grows, and what the trimming removes lies below it
      intro k hk
      apply isAwaitingPacket_eq_false.2
      by_cases hkl : k < least
      · exact .inl ⟨least, rfl, hkl⟩
      · rcases isAwaitingPacket_eq_false.1 (h.accepted k hk) with ⟨b, hb, hkb⟩ | hc
        · rw [hb, Option.all_some, decide_eq_true_eq] at hl
          omega
        · exact .inr ((contains_trimLessThan h.canonical).2 ⟨Nat.le_of_not_lt hkl, hc⟩)
    · exact h

theorem Inv.maybeTrimAckRanges {m : QuicReceivedPacketManager} (h : Inv m) : Inv m.maybeTrimAckRanges := by
  have hm : m.maybeTrimAckRanges = m := by
    rw [QuicReceivedPacketManager.maybeTrimAckRanges, trimRanges_of_fits h.fits]
  rw [hm]
  exact h

theorem Inv.step {m m' : QuicReceivedPacketManager} {e : Ev} (h : Inv m) (hc : RoomFor m e)
    (hs : m.step e = some m') : Inv m' := by
  cases e <;> obtain rfl := Option.some.inj hs
  case packet n => exact h.processPacket hc
  case dontWaitForPacketsBefore l => exact h.dontWaitForPacketsBefore l
  case getUpdatedAckFrame => exact h.maybeTrimAckRanges

/-! ## Each number is processed at most once -/

/-- **At most once.** As long as every new number finds room among the ranges, no number is
processed twice, and a copy of one that was processed is turned away. -/
theorem processed_once {limit : Nat} {es : List Ev} {m : QuicReceivedPacketManager}
    (hc : Lts.AllSteps step RoomFor { maxAckRanges := limit } es)
    (hr : Lts.run step { maxAckRanges := limit } es = some m) :
    m.accepted.Nodup ∧ ∀ n ∈ m.accepted, m.isAwaitingPacket n = false := by
  have h0 : Inv { maxAckRanges := limit } :=
    ⟨trivial, .inr (Nat.zero_le limit), fun n hn => absurd hn not_mem_nil, nodup_nil⟩
  have h : Inv m := Lts.run_inv_of (fun s e s' hi hp hs => Inv.step hi hp hs) h0 hc hr
  exact ⟨h.nodup, h.accepted⟩

def reordered : List Ev :=
  [.packet 1, .packet 4, .packet 2, .packet 4, .getUpdatedAckFrame, .dontWaitForPacketsBefore (some 3), .packet 1,
    .packet 3, .packet 2, .packet 3]

theorem processed_once_reordered : ∃ m, Lts.run step { maxAckRanges := 2 } reordered = some m ∧
    m.accepted = [3, 2, 4, 1] ∧ m.accepted.Nodup ∧ ∀ n ∈ m.accepted, m.isAwaitingPacket n = false :=
  ⟨_, rfl, rfl, @processed_once 2 reordered _ (Lts.allSteps_of_check (by decide +kernel)) rfl⟩

/-! ## Beyond the limit -/

def late (k : Nat) : List Ev := (List.range k).map fun i => .packet (1001 + 2 * i)

def lateRanges (k : Nat) : IntervalSet := (List.range k).map fun i => (1001 + 2 * i, 1001 + 2 * i + 1)

def everySecondLate (limit : Nat) : List Ev :=
  .dontWaitForPacketsBefore (some 1001) :: (late (limit + 1) ++ [.packet 1001])

theorem lateRanges_succ (k : Nat) : lateRanges (k + 1) = lateRanges k ++ [(1001 + 2 * k, 1001 + 2 * k + 1)] := by
  simp [lateRanges, range_succ]

theorem late_succ (k : Nat) : late (k + 1) = late k ++ [.packet (1001 + 2 * k)] := by
  simp [late, range_succ]

variable {k : Nat}

theorem mem_lateRanges {e : Nat × Nat} (h : e ∈ lateRanges k) : 1001 ≤ e.1 ∧ e.1 < e.2 ∧ e.2 < 1001 + 2 * k := by
  obtain ⟨i, hi, rfl⟩ := mem_map.1 h
  have := mem_range.1 hi
  omega

theorem add_lateRanges (k : Nat) : (lateRanges k).add (1001 + 2 * k) (1001 + 2 * k + 1) = lateRanges (k + 1) := by
  rw [lateRanges_succ]
  apply add_of_lt (Nat.le_succ _)
  intro e he
  have := mem_lateRanges he
  omega

theorem trimRanges_lateRanges (hpos : 0 < limit) :
    trimRanges limit (lateRanges (limit + 1)) = (lateRanges (limit + 1)).tail := by
  have hlen : (lateRanges (limit + 1)).length = limit + 1 := by simp [lateRanges]
  cases h : lateRanges (limit + 1) with
  | nil => rfl
  | cons e l =>
    rw [h] at hlen
    have hl : l.length = limit := Nat.succ.inj hlen
    rw [trimRanges, if_pos ⟨hpos, by omega⟩, trimRanges_of_fits (.inr (le_of_eq hl)), tail_cons]

structure AfterLate (limit k : Nat) (m : QuicReceivedPacketManager) : Prop where
  maxAckRanges : m.maxAckRanges = limit
  bound : m.peerLeastPacketAwaitingAck = some 1001
  packets : m.packets = trimRanges limit (lateRanges k)
  first : m.accepted.count 1001 = min k 1

theorem AfterLate.awaits (h : AfterLate limit k m) (hk : k ≤ limit) : m.isAwaitingPacket (1001 + 2 * k) = true := by
  have hfit : (lateRanges k).length ≤ limit := by simpa [lateRanges] using hk
  cases ha : m.isAwaitingPacket (1001 + 2 * k) with
  | true => rfl
  | false =>
    exfalso
    rcases isAwaitingPacket_eq_false.1 ha with ⟨l, hl, hlt⟩ | hc
    · rw [h.bound] at hl
      cases hl
      omega
    · rw [h.packets, trimRanges_of_fits (.inr hfit)] at hc
      obtain ⟨e, he, h1, h2⟩ := contains_iff.1 hc
      have := mem_lateRanges he
      omega

theorem AfterLate.succ (h : AfterLate limit k m) (hk : k ≤ limit) :
    AfterLate limit (k + 1) (m.processPacket (1001 + 2 * k)) := by
  have hfit : (lateRanges k).length ≤ limit := by simpa [lateRanges] using hk
  rw [processPacket, if_pos (h.awaits hk)]
  refine ⟨h.maxAckRanges, h.bound, ?_, ?_⟩
  · simp only [packets_recordPacketReceived]
    rw [h.packets, h.maxAckRanges, trimRanges_of_fits (.inr hfit), add_lateRanges]
  · simp only [count_cons, h.first, beq_iff_eq]
    by_cases h0 : k = 0
    · simp [h0]
    · rw [if_neg (by omega)]
      omega

theorem run_late {limit : Nat} {m : QuicReceivedPacketManager} (h : AfterLate limit 0 m) :
    ∀ k ≤ limit + 1, ∃ m', Lts.run step m (late k) = some m' ∧ AfterLate limit k m'
  | 0, _ => ⟨m, rfl, h⟩
  | k + 1, hk => by
    obtain ⟨m₁, hr, h1⟩ := run_late h k (by omega)
    refine ⟨m₁.processPacket (1001 + 2 * k), ?_, h1.succ (by omega)⟩
    rw [late_succ, Lts.run_append]
    exact ⟨m₁, hr, rfl⟩

/-- Whatever the limit, the burst makes the manager forget its first packet. -/
theorem processed_again (hpos : 0 < limit) :
    ∃ m, Lts.run step { maxAckRanges := limit } (everySecondLate limit) = some m ∧ m.accepted.count 1001 = 2 := by
  have h0 : AfterLate limit 0 (dontWaitForPacketsBefore { maxAckRanges := limit } (some 1001)) :=
    ⟨rfl, rfl, rfl, rfl⟩
  obtain ⟨m, hr, h⟩ := run_late h0 (limit + 1) le_rfl
  have ha : m.isAwaitingPacket 1001 = true := by
    cases ha : m.isAwaitingPacket 1001 with
    | true => rfl
    | false =>
      exfalso
      rcases isAwaitingPacket_eq_false.1 ha with ⟨l, hl, hlt⟩ | hc
      · rw [h.bound] at hl
        cases hl
        omega
      · -- the ranges that are left start after the second packet
        rw [h.packets, trimRanges_lateRanges hpos, lateRanges, range_succ_eq_map, map_cons, tail_cons] at hc
        obtain ⟨e, he, h1, -⟩ := contains_iff.1 hc
        obtain ⟨i, hi, rfl⟩ := mem_map.1 he
        obtain ⟨j, -, rfl⟩ := mem_map.1 hi
        omega
  refine ⟨m.processPacket 1001, ?_, ?_⟩
  · rw [everySecondLate, Lts.run_cons]
    refine ⟨_, rfl, ?_⟩
    rw [Lts.run_append]
    exact ⟨m, hr, rfl⟩
  · rw [processPacket, if_pos ha]
    simp [h.first]

/-- **A copy processed again.** The 256th range drops the smallest one and nothing keeps its
number from being awaited again. -/
theorem processed_twice_everySecondLate :
    ∃ m, Lts.run step { maxAckRanges := kMaxAckRanges } (everySecondLate kMaxAckRanges) = some m ∧
      m.accepted.count 1001 = 2 :=
  processed_again (by decide)

end QuicReceivedPacketManager

end Quictun
