import Quictun.AckFrame
import Quictun.ReceivedPackets

/-!
# The ACK frame of a packet number space

`QuicReceivedPacketManager` keeps the next ACK frame up to date: the ranges in the container that
the encoder reads, the largest number, the delay and the ECN counts. The ranges are cut from below
by the least packet the peer waits for and by `max_ack_ranges_`.

`Quictun.QuicReceivedPacketManager` has the same calls over plain lists of pairs; every call here
is one there. `received` and `dropped` are the history: the numbers recorded, and the whole
container each time its first range was dropped.
-/

namespace Quictun

open QuicIntervalSet List

namespace AckFrames

/-- A `QuicPacketNumber` that was never set reads as this. -/
def kUninitialized : Nat := 2 ^ 64 - 1

inductive Ecn
  | notEct | ect1 | ect0 | ce
deriving DecidableEq

structure QuicReceivedPacketManager where
  maxAckRanges : Nat
  /-- The flag `quic_interval_set_enable_add_optimization`. -/
  addOptimization : Bool
  largestAcked : Option Nat := none
  ackDelayTime : Nat := kInfiniteTimeUs
  packets : QuicIntervalSet Nat := []
  ecnCounters : Option QuicEcnCounts := none
  ackFrameUpdated : Bool := false
  wasLastPacketMissing : Bool := false
  changedToCeMarked : Bool := false
  lastPacketWasCeMarked : Bool := false
  leastReceivedPacketNumber : Option Nat := none
  /-- In microseconds; 0 is `QuicTime::Zero()`. -/
  timeLargestObserved : Nat := 0
  peerLeastPacketAwaitingAck : Option Nat := none
  received : List Nat := []
  dropped : List (QuicIntervalSet Nat) := []

namespace QuicReceivedPacketManager

section
variable (m : QuicReceivedPacketManager)

def isMissing (n : Nat) : Bool :=
  m.largestAcked.any (fun l => n < l) && !m.packets.contains n

def isAwaitingPacket (n : Nat) : Bool :=
  m.peerLeastPacketAwaitingAck.all (fun l => l ≤ n) && !m.packets.contains n

def trimRanges (limit : Nat) : QuicIntervalSet Nat → QuicIntervalSet Nat × List (QuicIntervalSet Nat)
  | [] => ([], [])
  | i :: s =>
    if 0 < limit ∧ limit < (i :: s).length then
      let r := trimRanges limit s
      (r.1, r.2 ++ [i :: s])
    else (i :: s, [])

def maybeTrimAckRanges : QuicReceivedPacketManager :=
  let r := trimRanges m.maxAckRanges m.packets
  { m with packets := r.1, dropped := r.2 ++ m.dropped }

def countEcn (c : Option QuicEcnCounts) : Ecn → Option QuicEcnCounts
  | .notEct => c
  | .ect0 => let c := c.getD ⟨0, 0, 0⟩; some { c with ect0 := c.ect0 + 1 }
  | .ect1 => let c := c.getD ⟨0, 0, 0⟩; some { c with ect1 := c.ect1 + 1 }
  | .ce => let c := c.getD ⟨0, 0, 0⟩; some { c with ce := c.ce + 1 }

def recordPacketReceived (n receiptTime : Nat) (ecn : Ecn) : QuicReceivedPacketManager :=
  let m := { m with wasLastPacketMissing := m.isMissing n, ackFrameUpdated := true, received := n :: m.received }
  let newest := m.largestAcked.all fun l => l < n
  let m := { m with
    largestAcked := if newest then some n else m.largestAcked
    timeLargestObserved := if newest then receiptTime else m.timeLargestObserved }
  let m := { m with packets := m.packets.addOptimizedForAppend m.addOptimization ⟨n, n + 1⟩ }
  let m := m.maybeTrimAckRanges
  { m with
    changedToCeMarked := m.changedToCeMarked || (ecn = .ce && !m.lastPacketWasCeMarked)
    lastPacketWasCeMarked := ecn = .ce
    ecnCounters := countEcn m.ecnCounters ecn
    leastReceivedPacketNumber := some ((m.leastReceivedPacketNumber.map (min n)).getD n) }

def dontWaitForPacketsBefore : Option Nat → QuicReceivedPacketManager
  | none => m
  | some least =>
    if m.peerLeastPacketAwaitingAck.all (fun l => l < least) then
      let r := m.packets.trimLessThan least
      { m with
        peerLeastPacketAwaitingAck := some least
        packets := r.1
        ackFrameUpdated := m.ackFrameUpdated || r.2 }
    else m

def ackFrame : QuicAckFrame :=
  { largestAcked := m.largestAcked.getD kUninitialized
    ackDelayTime := m.ackDelayTime
    packets := m.packets
    ecnCounters := m.ecnCounters }

def ackDelay (approximateNow : Nat) : Nat :=
  if m.timeLargestObserved = 0 then kInfiniteTimeUs else approximateNow - m.timeLargestObserved

def getUpdatedAckFrame (approximateNow : Nat) : QuicAckFrame × QuicReceivedPacketManager :=
  let m := { m with ackDelayTime := m.ackDelay approximateNow }.maybeTrimAckRanges
  (m.ackFrame, m)

end

inductive Ev
  | recordPacketReceived (number receiptTime : Nat) (ecn : Ecn)
  | dontWaitForPacketsBefore (leastUnacked : Option Nat)
  | getUpdatedAckFrame (approximateNow : Nat)

def step (m : QuicReceivedPacketManager) : Ev → Option QuicReceivedPacketManager
  | .recordPacketReceived n receiptTime ecn =>
    if m.isAwaitingPacket n then some (m.recordPacketReceived n receiptTime ecn) else none
  | .dontWaitForPacketsBefore l => some (m.dontWaitForPacketsBefore l)
  | .getUpdatedAckFrame now => some (m.getUpdatedAckFrame now).2

/-! ## The same calls over lists of pairs -/

def pairs (s : QuicIntervalSet Nat) : IntervalSet := s.map fun i => (i.min, i.max)

def plain (m : QuicReceivedPacketManager) : Quictun.QuicReceivedPacketManager where
  maxAckRanges := m.maxAckRanges
  packets := pairs m.packets
  largestAcked := m.largestAcked
  ackFrameUpdated := m.ackFrameUpdated
  wasLastPacketMissing := m.wasLastPacketMissing
  leastReceivedPacketNumber := m.leastReceivedPacketNumber
  peerLeastPacketAwaitingAck := m.peerLeastPacketAwaitingAck
  accepted := m.received

def Ev.plain : Ev → Quictun.QuicReceivedPacketManager.Ev
  | recordPacketReceived n _ _ => .packet n
  | dontWaitForPacketsBefore l => .dontWaitForPacketsBefore l
  | getUpdatedAckFrame _ => .getUpdatedAckFrame

variable {s t : QuicIntervalSet Nat}

theorem canonical_pairs : ∀ {s : QuicIntervalSet Nat}, IntervalSet.Canonical (pairs s) ↔ s.Canonical
  | [] => by simp [pairs, IntervalSet.Canonical, canonical_nil]
  | i :: s => by
    rw [canonical_cons, ← canonical_pairs]
    simp [pairs, IntervalSet.Canonical]

variable {n : Nat}

theorem contains_pairs : IntervalSet.contains n (pairs s) = true ↔ n ∈ points s := by
  simp [IntervalSet.contains_iff, pairs, points]

theorem eq_pairs {l : IntervalSet} (hl : l.Canonical) (hs : s.Canonical)
    (h : ∀ n, IntervalSet.contains n l = true ↔ n ∈ points s) : l = pairs s := by
  have hlp : l = pairs (l.map fun e => ⟨e.1, e.2⟩) := by
    rw [pairs, map_map]
    exact (map_id l).symm
  rw [hlp] at hl h ⊢
  rw [canonical_pairs.1 hl |>.ext hs]
  ext n
  rw [← h n, contains_pairs]

theorem pairs_add (h : s.Canonical) (enabled : Bool) (n : Nat) :
    pairs (s.addOptimizedForAppend enabled ⟨n, n + 1⟩) = (pairs s).add n (n + 1) := by
  rw [addOptimizedForAppend_eq h]
  refine (eq_pairs (IntervalSet.canonical_add (Nat.lt_succ_self n) (canonical_pairs.2 h)) (canonical_add h _) ?_).symm
  intro k
  rw [IntervalSet.contains_add (Nat.le_succ n) (canonical_pairs.2 h), contains_pairs, points_add h, Set.mem_union,
    Set.mem_Ico, or_comm]

theorem pairs_trimLessThan (v : Nat) : ∀ s : QuicIntervalSet Nat,
    pairs (s.trimLessThan v).1 = (pairs s).trimLessThan v
  | [] => rfl
  | i :: s => by
    have ih := pairs_trimLessThan v s
    simp only [trimLessThan, pairs, map_cons, IntervalSet.trimLessThan] at ih ⊢
    split
    · rfl
    split
    · exact ih
    · rfl

theorem trimLessThan_changed (v : Nat) (h : s.Canonical) : (s.trimLessThan v).2 = (pairs s).any fun e => e.1 < v := by
  cases s with
  | nil => rfl
  | cons i s =>
    obtain ⟨hi, ha, -⟩ := canonical_cons.1 h
    rw [trimLessThan]
    split
    next hv =>
      symm
      simp only [pairs, any_map, any_eq_false, Function.comp_apply, decide_eq_true_eq, not_lt]
      intro j hj
      rcases mem_cons.1 hj with rfl | hj
      · exact hv
      · have := ha j hj
        omega
    next hv =>
      have hb : decide (i.min < v) = true := by simpa using hv
      split <;> simp [pairs, hb]

theorem pairs_trimRanges (limit : Nat) : ∀ s : QuicIntervalSet Nat,
    pairs (trimRanges limit s).1 = Quictun.QuicReceivedPacketManager.trimRanges limit (pairs s)
  | [] => rfl
  | i :: s => by
    have ih := pairs_trimRanges limit s
    simp only [trimRanges, pairs, map_cons, length_cons, length_map,
      Quictun.QuicReceivedPacketManager.trimRanges] at ih ⊢
    split
    · exact ih
    · rfl

theorem contains_plain {m : QuicReceivedPacketManager} (h : m.packets.Canonical) (n : Nat) :
    m.plain.packets.contains n = m.packets.contains n := by
  rw [Bool.eq_iff_iff, QuicIntervalSet.contains_iff h]
  exact contains_pairs

theorem largest_eq_max (l : Option Nat) (n : Nat) :
    (if l.all (fun l => l < n) = true then some n else l) = some ((l.map (max n)).getD n) := by
  cases l with
  | none => rfl
  | some l =>
    simp only [Option.all_some, decide_eq_true_eq, Option.map_some, Option.getD_some]
    split
    · rw [max_eq_left (by omega)]
    · rw [max_eq_right (by omega)]

section
variable {m : QuicReceivedPacketManager} (h : m.packets.Canonical)
include h

theorem isAwaitingPacket_plain (n : Nat) :
    m.plain.isAwaitingPacket n = m.isAwaitingPacket n := by
  rw [isAwaitingPacket, ← contains_plain h]
  rfl

theorem recordPacketReceived_plain (n receiptTime : Nat)
    (ecn : Ecn) : (m.recordPacketReceived n receiptTime ecn).plain =
      { m.plain.recordPacketReceived n with accepted := n :: m.received } := by
  simp only [recordPacketReceived, maybeTrimAckRanges, plain, largest_eq_max, pairs_trimRanges, pairs_add h,
    Quictun.QuicReceivedPacketManager.recordPacketReceived, Quictun.QuicReceivedPacketManager.maybeTrimAckRanges,
    Quictun.QuicReceivedPacketManager.isMissing, isMissing, ← contains_plain h]

theorem dontWaitForPacketsBefore_plain (l : Option Nat) :
    (m.dontWaitForPacketsBefore l).plain = m.plain.dontWaitForPacketsBefore l := by
  cases l with
  | none => rfl
  | some least =>
    simp only [dontWaitForPacketsBefore, Quictun.QuicReceivedPacketManager.dontWaitForPacketsBefore]
    split
    next hl =>
      rw [if_pos (show m.plain.peerLeastPacketAwaitingAck.all _ = true from hl)]
      simp only [plain, pairs_trimLessThan, trimLessThan_changed least h]
    next hl =>
      rw [if_neg (show ¬ m.plain.peerLeastPacketAwaitingAck.all _ = true from hl)]

end

variable {e : Ev}

theorem step_plain {m m' : QuicReceivedPacketManager} (h : m.packets.Canonical) (hs : m.step e = some m') :
    m.plain.step e.plain = some m'.plain := by
  cases e with
  | recordPacketReceived n receiptTime ecn =>
    obtain ⟨ha, ⟨⟩⟩ := Option.ite_none_right_eq_some.1 hs
    rw [recordPacketReceived_plain h, Ev.plain, Quictun.QuicReceivedPacketManager.step,
      Quictun.QuicReceivedPacketManager.processPacket, isAwaitingPacket_plain h, if_pos ha]
    rfl
  | dontWaitForPacketsBefore l =>
    cases hs
    rw [dontWaitForPacketsBefore_plain h]
    rfl
  | getUpdatedAckFrame now =>
    cases hs
    simp only [Ev.plain, Quictun.QuicReceivedPacketManager.step, Quictun.QuicReceivedPacketManager.getUpdatedAckFrame,
      Quictun.QuicReceivedPacketManager.maybeTrimAckRanges, getUpdatedAckFrame, maybeTrimAckRanges, plain,
      pairs_trimRanges]

/-! ## Trimming -/

/-- The number was in the first range of the container when that range was dropped for want of room. -/
def Dropped (m : QuicReceivedPacketManager) (n : Nat) : Prop :=
  ∃ s ∈ m.dropped, m.maxAckRanges < s.length ∧ ∃ i, s.head? = some i ∧ i.min ≤ n ∧ n < i.max

theorem trimRanges_suffix (limit : Nat) : ∀ s : QuicIntervalSet Nat, (trimRanges limit s).1 <:+ s
  | [] => suffix_rfl
  | i :: s => by
    rw [trimRanges]
    split
    · exact (trimRanges_suffix limit s).trans (suffix_cons i s)
    · exact suffix_rfl

theorem length_trimRanges {limit : Nat} (hpos : 0 < limit) : ∀ s : QuicIntervalSet Nat,
    (trimRanges limit s).1.length ≤ limit
  | [] => Nat.zero_le limit
  | i :: s => by
    rw [trimRanges]
    split
    · exact length_trimRanges hpos s
    next h => simpa [hpos] using h

theorem trimRanges_ne_nil {limit : Nat} : ∀ {s : QuicIntervalSet Nat}, s ≠ [] → (trimRanges limit s).1 ≠ []
  | [], h => absurd rfl h
  | i :: s, _ => by
    rw [trimRanges]
    split
    next h =>
      -- More than one range is left.
      apply trimRanges_ne_nil
      intro hs
      rw [hs] at h
      simp only [length_singleton] at h
      omega
    · exact cons_ne_nil i s

theorem mem_trimRanges {limit n : Nat} : ∀ {s : QuicIntervalSet Nat}, n ∈ points s → n ∈ points (trimRanges limit s).1 ∨
    ∃ t ∈ (trimRanges limit s).2, limit < t.length ∧ ∃ i, t.head? = some i ∧ i.min ≤ n ∧ n < i.max
  | [], h => .inl h
  | i :: s, h => by
    rw [trimRanges]
    split
    next hlen =>
      rcases mem_points_cons.1 h with hi | hs
      · exact .inr ⟨i :: s, by simp, hlen.2, i, rfl, hi⟩
      · refine (mem_trimRanges hs).imp_right fun ⟨t, ht, hr⟩ => ⟨t, by simp [ht], hr⟩
    · exact .inl h

variable {p : Nat}

theorem mem_of_suffix (h : s.Canonical) (ht : t <:+ s) (hne : t ≠ []) (hp : p ∈ points s)
    (hg : ∀ q ∈ points s, q ≤ p) : p ∈ points t := by
  obtain ⟨a, rfl⟩ := ht
  obtain ⟨-, hc, hlt⟩ := canonical_append.1 h
  rcases mem_points_append.1 hp with ⟨i, hi, -, hpi⟩ | hp
  · obtain ⟨j, l, rfl⟩ := exists_cons_of_ne_nil hne
    have hj : j.min ∈ points (j :: l) := min_mem_points hc mem_cons_self
    have h1 := hlt i hi j mem_cons_self
    have h2 := hg j.min (mem_points_append.2 (.inr hj))
    omega
  · exact hp

variable {i : QuicInterval Nat}

theorem getLast_max (h : s.Canonical) (hi : s.getLast? = some i) (hp : p ∈ points s)
    (hg : ∀ q ∈ points s, q ≤ p) : i.max = p + 1 := by
  have hs := dropLast_append_getLast? i hi
  rw [← hs] at h
  have hmem : i ∈ s := mem_of_getLast? hi
  have hpi : p ∈ points [i] := by
    rw [← hs] at hp hg
    exact mem_of_suffix h (suffix_append _ _) (cons_ne_nil i []) hp hg
  rw [mem_points_singleton] at hpi
  have := hg (i.max - 1) ⟨i, hmem, by omega, by omega⟩
  omega

/-! ## What the frame says -/

structure Core (m : QuicReceivedPacketManager) : Prop where
  canonical : m.packets.Canonical
  sound : ∀ n ∈ points m.packets, n ∈ m.received
  complete : ∀ n ∈ m.received, n ∈ points m.packets ∨ (∃ l, m.peerLeastPacketAwaitingAck = some l ∧ n < l) ∨ m.Dropped n
  awaited : ∀ n ∈ points m.packets, ∀ l, m.peerLeastPacketAwaitingAck = some l → l ≤ n
  largest_le : ∀ n ∈ points m.packets, ∃ L, m.largestAcked = some L ∧ n ≤ L
  /-- The largest number is acknowledged unless the peer is past it. -/
  largest_mem : ∀ L, m.largestAcked = some L →
    L ∈ points m.packets ∨ ∃ l, m.peerLeastPacketAwaitingAck = some l ∧ L < l

structure Inv (limit : Nat) (m : QuicReceivedPacketManager) : Prop extends Core m where
  maxAckRanges : m.maxAckRanges = limit
  fits : m.packets.length ≤ limit

variable {m m' : QuicReceivedPacketManager} {limit : Nat}

theorem Core.greatest (h : m.Core) (hn : n ∈ points m.packets) :
    ∃ L, m.largestAcked = some L ∧ L ∈ points m.packets ∧ ∀ q ∈ points m.packets, q ≤ L := by
  obtain ⟨L, hL, hle⟩ := h.largest_le n hn
  refine ⟨L, hL, ?_, fun q hq => ?_⟩
  · rcases h.largest_mem L hL with hm | ⟨l, hl, hlt⟩
    · exact hm
    · have := h.awaited n hn l hl
      omega
  · obtain ⟨L', hL', hle'⟩ := h.largest_le q hq
    rw [hL] at hL'
    cases hL'
    exact hle'

theorem Core.trim (h : m.Core) (hpos : 0 < limit) (hm : m.maxAckRanges = limit) : m.maybeTrimAckRanges.Inv limit := by
  have hsuf := trimRanges_suffix m.maxAckRanges m.packets
  have hsub : ∀ n ∈ points m.maybeTrimAckRanges.packets, n ∈ points m.packets := by
    rintro n ⟨i, hi, hn⟩
    exact ⟨i, hsuf.mem hi, hn⟩
  refine { canonical := ?_, sound := ?_, complete := ?_, awaited := ?_, largest_le := ?_, largest_mem := ?_
           maxAckRanges := hm, fits := ?_ }
  · obtain ⟨a, ha⟩ := hsuf
    have hc := h.canonical
    rw [← ha] at hc
    exact (canonical_append.1 hc).2.1
  · exact fun n hn => h.sound n (hsub n hn)
  · intro n hn
    rcases h.complete n hn with hp | hl | ⟨s, hs, hd⟩
    · rcases @mem_trimRanges m.maxAckRanges n _ hp with hk | ⟨t, ht, hd⟩
      · exact .inl hk
      · exact .inr (.inr ⟨t, mem_append_left _ ht, hd⟩)
    · exact .inr (.inl hl)
    · exact .inr (.inr ⟨s, mem_append_right _ hs, hd⟩)
  · exact fun n hn => h.awaited n (hsub n hn)
  · exact fun n hn => h.largest_le n (hsub n hn)
  · intro L hL
    rcases h.largest_mem L hL with hp | hl
    · obtain ⟨L', hL', -, hg⟩ := h.greatest hp
      obtain rfl : L = L' := Option.some.inj (hL.symm.trans hL')
      refine .inl (mem_of_suffix h.canonical hsuf (trimRanges_ne_nil ?_) hp hg)
      intro h0
      rw [h0, points_nil] at hp
      exact hp
    · exact .inr hl
  · exact hm ▸ length_trimRanges (hm ▸ hpos) m.packets

theorem isAwaitingPacket_iff (h : m.packets.Canonical) (n : Nat) : m.isAwaitingPacket n = true ↔
    (∀ l, m.peerLeastPacketAwaitingAck = some l → l ≤ n) ∧ n ∉ points m.packets := by
  rw [isAwaitingPacket, Bool.and_eq_true, Bool.not_eq_true', ← Bool.not_eq_true, QuicIntervalSet.contains_iff h]
  cases m.peerLeastPacketAwaitingAck <;> simp

theorem Core.add (h : m.Core) (hb : ∀ l, m.peerLeastPacketAwaitingAck = some l → l ≤ n) (missing : Bool) (time : Nat) :
    Core { m with
      wasLastPacketMissing := missing
      ackFrameUpdated := true
      received := n :: m.received
      largestAcked := if m.largestAcked.all (fun l => l < n) then some n else m.largestAcked
      timeLargestObserved := time
      packets := m.packets.addOptimizedForAppend m.addOptimization ⟨n, n + 1⟩ } := by
  have hp : ∀ k, k ∈ points (m.packets.addOptimizedForAppend m.addOptimization ⟨n, n + 1⟩) ↔
      k ∈ points m.packets ∨ k = n := by
    intro k
    have hk : n ≤ k ∧ k < n + 1 ↔ k = n := by omega
    rw [addOptimizedForAppend_eq h.canonical, points_add h.canonical, Set.mem_union, Set.mem_Ico, hk]
  simp only [largest_eq_max]
  constructor
  · simp only [addOptimizedForAppend_eq h.canonical]
    exact canonical_add h.canonical _
  · intro k hk
    rcases (hp k).1 hk with hk | rfl
    · exact mem_cons_of_mem n (h.sound k hk)
    · exact mem_cons_self
  · intro k hk
    rcases mem_cons.1 hk with rfl | hk
    · exact .inl ((hp k).2 (.inr rfl))
    · exact (h.complete k hk).imp_left fun hk => (hp k).2 (.inl hk)
  · intro k hk
    rcases (hp k).1 hk with hk | rfl
    · exact h.awaited k hk
    · exact hb
  · intro k hk
    rcases (hp k).1 hk with hk | rfl
    · obtain ⟨L, hL, hle⟩ := h.largest_le k hk
      simp only [hL, Option.map_some, Option.getD_some]
      exact ⟨_, rfl, le_trans hle (le_max_right n L)⟩
    · refine ⟨_, rfl, ?_⟩
      cases m.largestAcked with
      | none => exact le_refl k
      | some L => exact le_max_left k L
  · intro L hL
    cases hm : m.largestAcked with
    | none =>
      simp only [hm, Option.map_none, Option.getD_none, Option.some.injEq] at hL
      exact .inl ((hp L).2 (.inr hL.symm))
    | some L₀ =>
      simp only [hm, Option.map_some, Option.getD_some, Option.some.injEq] at hL
      rcases max_choice n L₀ with hx | hx
      · exact .inl ((hp L).2 (.inr (hL.symm.trans hx)))
      · obtain rfl : L₀ = L := hx.symm.trans hL
        exact (h.largest_mem L₀ hm).imp_left fun hk => (hp L₀).2 (.inl hk)

theorem Inv.recordPacketReceived (h : m.Inv limit) (hpos : 0 < limit) {n : Nat} (ha : m.isAwaitingPacket n = true)
    (receiptTime : Nat) (ecn : Ecn) : (m.recordPacketReceived n receiptTime ecn).Inv limit :=
  { (h.toCore.add ((isAwaitingPacket_iff h.canonical n).1 ha).1 _ _).trim hpos h.maxAckRanges with }

theorem length_trimLessThan_le (v : Nat) : ∀ s : QuicIntervalSet Nat, (s.trimLessThan v).1.length ≤ s.length
  | [] => le_refl 0
  | i :: s => by
    rw [trimLessThan]
    split
    · exact le_rfl
    split
    · exact Nat.le_succ_of_le (length_trimLessThan_le v s)
    · exact le_rfl

theorem Inv.dontWaitForPacketsBefore (h : m.Inv limit) (l : Option Nat) : (m.dontWaitForPacketsBefore l).Inv limit := by
  cases l with
  | none => exact h
  | some least =>
    rw [QuicReceivedPacketManager.dontWaitForPacketsBefore]
    split
    next hl =>
      obtain ⟨hc, hp⟩ := trimLessThan_spec least h.canonical
      have hp : ∀ k, k ∈ points (m.packets.trimLessThan least).1 ↔ k ∈ points m.packets ∧ least ≤ k := by
        intro k
        rw [hp]
        rfl
      have hle : ∀ b, m.peerLeastPacketAwaitingAck = some b → b < least := by
        intro b hb
        simpa [hb] using hl
      refine { canonical := hc, sound := ?_, complete := ?_, awaited := ?_, largest_le := ?_, largest_mem := ?_
               maxAckRanges := h.maxAckRanges, fits := ?_ }
      · exact fun k hk => h.sound k ((hp k).1 hk).1
      · intro k hk
        by_cases hkl : k < least
        · exact .inr (.inl ⟨least, rfl, hkl⟩)
        · rcases h.complete k hk with hk | ⟨b, hb, hkb⟩ | hd
          · exact .inl ((hp k).2 ⟨hk, Nat.le_of_not_lt hkl⟩)
          · have := hle b hb
            omega
          · exact .inr (.inr hd)
      · intro k hk b hb
        cases hb
        exact ((hp k).1 hk).2
      · exact fun k hk => h.largest_le k ((hp k).1 hk).1
      · intro L hL
        by_cases hLl : L < least
        · exact .inr ⟨least, rfl, hLl⟩
        · rcases h.largest_mem L hL with hk | ⟨b, hb, hkb⟩
          · exact .inl ((hp L).2 ⟨hk, Nat.le_of_not_lt hLl⟩)
          · have := hle b hb
            omega
      · exact le_trans (length_trimLessThan_le least m.packets) h.fits
    · exact h

theorem Inv.getUpdatedAckFrame (h : m.Inv limit) (hpos : 0 < limit) (now : Nat) :
    (m.getUpdatedAckFrame now).2.Inv limit := by
  have hc : Core { m with ackDelayTime := m.ackDelay now } := { h.toCore with }
  exact hc.trim hpos h.maxAckRanges

theorem Inv.step (h : m.Inv limit) (hpos : 0 < limit) (hs : m.step e = some m') : m'.Inv limit := by
  cases e with
  | recordPacketReceived n receiptTime ecn =>
    obtain ⟨ha, ⟨⟩⟩ := Option.ite_none_right_eq_some.1 hs
    exact h.recordPacketReceived hpos ha receiptTime ecn
  | dontWaitForPacketsBefore l =>
    cases hs
    exact h.dontWaitForPacketsBefore l
  | getUpdatedAckFrame now =>
    cases hs
    exact h.getUpdatedAckFrame hpos now

theorem inv_fresh (limit : Nat) (enabled : Bool) : Inv limit { maxAckRanges := limit, addOptimization := enabled } where
  canonical := canonical_nil
  sound n hn := by simp at hn
  complete n hn := by cases hn
  awaited n hn := by simp at hn
  largest_le n hn := by simp at hn
  largest_mem L hL := by cases hL
  maxAckRanges := rfl
  fits := Nat.zero_le limit

theorem run_plain (hpos : 0 < limit) : ∀ {es : List Ev} {m : QuicReceivedPacketManager}, m.Inv limit →
    Lts.run step m es = some m' →
    Lts.run Quictun.QuicReceivedPacketManager.step m.plain (es.map Ev.plain) = some m'.plain
  | [], m, _, hr => by
    cases hr
    rfl
  | e :: es, m, h, hr => by
    obtain ⟨k, hk, hr⟩ := Lts.run_cons.1 hr
    exact Lts.run_cons.2 ⟨k.plain, step_plain h.canonical hk, run_plain hpos (h.step hpos hk) hr⟩

def gap : List Ev := [.recordPacketReceived 1 5 .notEct, .recordPacketReceived 3 6 .ce]

theorem run_plain_gap : ∃ m, Lts.run step { maxAckRanges := 1, addOptimization := true } gap = some m ∧
    m.plain.packets = [(3, 4)] ∧
    Lts.run Quictun.QuicReceivedPacketManager.step { maxAckRanges := 1 } [.packet 1, .packet 3] = some m.plain := by
  have hr : Lts.run step { maxAckRanges := 1, addOptimization := true } gap = some _ := rfl
  exact ⟨_, hr, rfl, run_plain (by decide) (inv_fresh 1 true) hr⟩

/-! ## Encoding it -/

def NotMalformed {α : Type} (r : Except String α) : Prop := r ≠ .error "Malformed ack frame"

theorem NotMalformed.bind {α β : Type} {r : Except String α} {f : α → Except String β} (hr : NotMalformed r)
    (hf : ∀ a, NotMalformed (f a)) : NotMalformed (r >>= f) := by
  cases r with
  | error detail => exact fun h => hr (by cases h; rfl)
  | ok a => exact hf a

theorem notMalformed_write (w : QuicheDataWriter) (value : Nat) {detail : String}
    (hd : detail ≠ "Malformed ack frame") :
    NotMalformed (w.writeVarInt62OrError value detail) := by
  unfold NotMalformed QuicheDataWriter.writeVarInt62OrError
  split <;> simp [hd]

theorem notMalformed_append {f : QuicAckFrame} {first : QuicInterval Nat} {rest : List (QuicInterval Nat)}
    (hr : f.packets.reverse = first :: rest) (hmax : first.max - 1 = f.largestAcked) (e : Nat) (w : QuicheDataWriter) :
    NotMalformed (QuicFramer.appendIetfAckFrameAndTypeByte e f w) := by
  unfold QuicFramer.appendIetfAckFrameAndTypeByte
  apply NotMalformed.bind (notMalformed_write _ _ (by decide))
  intro w
  apply NotMalformed.bind (notMalformed_write _ _ (by decide))
  intro w
  apply NotMalformed.bind (notMalformed_write _ _ (by decide))
  intro w
  simp only [hr, hmax, ne_eq, not_true_eq_false, if_false]
  apply NotMalformed.bind (notMalformed_write _ _ (by decide))
  intro w
  apply NotMalformed.bind (notMalformed_write _ _ (by decide))
  intro w
  apply NotMalformed.bind
  · unfold NotMalformed QuicFramer.rewriteAckBlockCount
    split
    · split
      · simp
      · split <;> simp
    · simp
  · intro w
    unfold QuicFramer.appendEcnCounts
    split
    · simp [NotMalformed]
    · apply NotMalformed.bind (notMalformed_write _ _ (by decide))
      intro w
      apply NotMalformed.bind (notMalformed_write _ _ (by decide))
      intro w
      exact notMalformed_write _ _ (by decide)

theorem Core.getLast (h : m.Core) (hi : m.packets.getLast? = some i) : m.largestAcked = some (i.max - 1) := by
  have hmem : i ∈ m.packets := mem_of_getLast? hi
  obtain ⟨L, hL, hp, hg⟩ := h.greatest (min_mem_points h.canonical hmem)
  rw [hL, getLast_max h.canonical hi hp hg, Nat.add_sub_cancel]

def Ev.number : Ev → Option Nat
  | recordPacketReceived n _ _ => some n
  | _ => none

theorem step_received (hs : m.step e = some m') : m'.received = e.number.toList ++ m.received := by
  cases e with
  | recordPacketReceived =>
    obtain ⟨-, ⟨⟩⟩ := Option.ite_none_right_eq_some.1 hs
    rfl
  | dontWaitForPacketsBefore l =>
    cases hs
    unfold dontWaitForPacketsBefore
    split
    · rfl
    · split <;> rfl
  | getUpdatedAckFrame =>
    cases hs
    rfl

/-- **ACK frames tell the truth.** They acknowledge only what was received, and leave out only what the peer no longer
waits for and what was dropped for want of room. -/
theorem ackFrame_truthful {limit : Nat} (hpos : 0 < limit) (enabled : Bool) {es : List Ev}
    {m : QuicReceivedPacketManager}
    (hr : Lts.run step { maxAckRanges := limit, addOptimization := enabled } es = some m) (now : Nat) :
    let f := (m.getUpdatedAckFrame now).1
    let m' := (m.getUpdatedAckFrame now).2
    m.received = (es.filterMap Ev.number).reverse ∧ f.packets.Canonical ∧ (∀ n ∈ points f.packets, n ∈ m.received) ∧
      (∀ n ∈ m.received, n ∉ points f.packets →
        (∃ l, m.peerLeastPacketAwaitingAck = some l ∧ n < l) ∨
          ∃ s ∈ m'.dropped, limit < s.length ∧ ∃ i, s.head? = some i ∧ i.min ≤ n ∧ n < i.max) ∧
      f.packets.length ≤ limit ∧
      (∀ i, f.packets.getLast? = some i → m.largestAcked = some (i.max - 1) ∧ f.largestAcked = i.max - 1) ∧
      (f.packets ≠ [] → ∀ e w, QuicFramer.appendIetfAckFrameAndTypeByte e f w ≠ .error "Malformed ack frame") := by
  have h : m.Inv limit := Lts.run_inv (fun _ _ _ h hs => h.step hpos hs) (inv_fresh limit enabled) hr
  have h' := h.getUpdatedAckFrame hpos now
  have hlast : ∀ i, (m.getUpdatedAckFrame now).1.packets.getLast? = some i →
      m.largestAcked = some (i.max - 1) ∧ (m.getUpdatedAckFrame now).1.largestAcked = i.max - 1 := by
    intro i hi
    have hL : m.largestAcked = some (i.max - 1) := h'.toCore.getLast hi
    refine ⟨hL, ?_⟩
    change m.largestAcked.getD kUninitialized = i.max - 1
    rw [hL, Option.getD_some]
  refine ⟨Lts.run_log (fun _ _ _ => step_received) rfl hr, h'.canonical, h'.sound, ?_, h'.fits, hlast, ?_⟩
  · intro n hn hp
    rcases h'.complete n hn with hk | hl | ⟨s, hs, hlen, hd⟩
    · exact absurd hk hp
    · exact .inl hl
    · exact .inr ⟨s, hs, h'.maxAckRanges ▸ hlen, hd⟩
  · intro hne e w
    obtain ⟨first, rest, hrev⟩ := exists_cons_of_ne_nil (mt reverse_eq_nil_iff.1 hne)
    refine notMalformed_append hrev ?_ e w
    rw [(hlast first ?_).2]
    rw [← head?_reverse, hrev, head?_cons]

/-- Two ranges at most: the packet that is late for the third time drops the lowest one. -/
def thirdRange : List Ev :=
  [.recordPacketReceived 1 5 .notEct, .recordPacketReceived 5 6 .ce, .recordPacketReceived 3 7 .notEct,
    .getUpdatedAckFrame 8, .dontWaitForPacketsBefore (some 4), .recordPacketReceived 4 9 .ect0]

theorem ackFrame_truthful_dropped : ∃ m, Lts.run step { maxAckRanges := 2, addOptimization := true } thirdRange =
    some m ∧ (m.getUpdatedAckFrame 10).1.packets = [⟨4, 6⟩] ∧ (m.getUpdatedAckFrame 10).1.largestAcked = 5 ∧
      m.dropped = [[⟨1, 2⟩, ⟨3, 4⟩, ⟨5, 6⟩]] ∧ m.received = [4, 3, 5, 1] ∧
      ∀ n ∈ points (m.getUpdatedAckFrame 10).1.packets, n ∈ m.received := by
  have hr : Lts.run step { maxAckRanges := 2, addOptimization := true } thirdRange = some _ := rfl
  have h := ackFrame_truthful (by decide) true hr 10
  exact ⟨_, hr, rfl, rfl, rfl, h.1, h.2.2.1⟩

end QuicReceivedPacketManager

end AckFrames

end Quictun
