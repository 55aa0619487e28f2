import Quictun.UnackedPackets

/-!
# Loss detection

`GeneralLossAlgorithm` declares packets lost when a packet sent sufficiently later, or sufficiently long
ago, has been acknowledged. It looks at the packets of its space in flight from `least_in_flight_` on,
the first packet that can be in flight as far as the last call could tell.

Only packets that are not in flight, or of another space, are before `least_in_flight_`; so every call
does what it would do with the number uninitialised, which makes it look at everything (`fullScan`).
-/

namespace Quictun

open QuicUnackedPacketMap List Option

variable {F : Type*}

def kAlarmGranularity : Int := 1000

structure LossTuning where
  packetNumberSpace : PacketNumberSpace
  reorderingShift : Nat := 2
  reorderingThreshold : Nat := 3
  usePacketThresholdForRuntPackets : Bool := true

structure GeneralLossAlgorithm extends LossTuning where
  lossDetectionTimeout : Int := 0
  leastInFlight : Option Nat := some 1

structure LossCall where
  time : Int
  previousSrtt : Int
  latestRtt : Int
  largestNewlyAcked : Nat
  packetsAcked : List Nat

structure LossScan where
  packetsLost : List (Nat × Nat) := []
  maxSequenceReordering : Nat := 0
  numBorderlineTimeReorderings : Nat := 0
  lossDetectionTimeout : Int := 0
  leastInFlight : Option Nat := none
deriving DecidableEq

def LossCall.getMaxRtt (c : LossCall) : Int := max kAlarmGranularity (max c.previousSrtt c.latestRtt)

namespace LossTuning

def watches (t : LossTuning) (m : QuicUnackedPacketMap F) (info : QuicTransmissionInfo F) : Bool :=
  m.getPacketNumberSpace info.encryptionLevel = t.packetNumberSpace && info.inFlight

def scan (t : LossTuning) (m : QuicUnackedPacketMap F) (c : LossCall) : Nat → List (QuicTransmissionInfo F) → LossScan →
    LossScan
  | _, [], r => r
  | packetNumber, info :: rest, r =>
    if c.largestNewlyAcked < packetNumber then r
    else if !t.watches m info then t.scan m c (packetNumber + 1) rest r
    else
      let distance := c.largestNewlyAcked - packetNumber
      let r := { r with maxSequenceReordering := max r.maxSequenceReordering distance }
      let lost := { r with packetsLost := r.packetsLost ++ [(packetNumber, info.bytesSent)] }
      -- A runt does not tell of packets that are larger.
      let acked := m.unackedPackets[c.largestNewlyAcked - m.leastUnacked]?
      let skipPacketThreshold := !t.usePacketThresholdForRuntPackets && acked.any fun acked =>
        acked.bytesSent < info.bytesSent
      if !skipPacketThreshold && t.reorderingThreshold ≤ distance then t.scan m c (packetNumber + 1) rest lost
      else
        let maxRtt := c.getMaxRtt
        let whenLost := info.sentTime + (maxRtt + (maxRtt >>> t.reorderingShift))
        if c.time < whenLost then
          { r with
            numBorderlineTimeReorderings := r.numBorderlineTimeReorderings +
              (if info.sentTime + maxRtt + (maxRtt >>> (t.reorderingShift + 1)) ≤ c.time then 1 else 0)
            lossDetectionTimeout := whenLost
            leastInFlight := some packetNumber }
        else t.scan m c (packetNumber + 1) rest lost

end LossTuning

open LossTuning

namespace GeneralLossAlgorithm

variable (a : GeneralLossAlgorithm) (m : QuicUnackedPacketMap F) (c : LossCall)

/-- The loop over `packets_acked`, which does nothing if the first of them is another packet. -/
def skipAcked : Nat → List Nat → Nat
  | least, [] => least
  | least, acked :: rest => if acked = least then skipAcked (least + 1) rest else least

def noneMissing : Bool :=
  a.leastInFlight.any fun least => c.packetsAcked.head? = some least && c.packetsAcked.getLast? =
    some c.largestNewlyAcked &&
    least + c.packetsAcked.length - 1 = c.largestNewlyAcked

/-- Where the loop starts. A `least_in_flight_` beyond all packets sent is reported as a bug. -/
def scanStart : Option Nat → Nat × List (QuicTransmissionInfo F)
  | some least =>
    if m.leastUnacked ≤ least && least ≤ m.largestSentPacket.getD 0 + 1 then
      (least, m.unackedPackets.drop (least - m.leastUnacked))
    else (m.leastUnacked, m.unackedPackets)
  | none => (m.leastUnacked, m.unackedPackets)

def finish (r : LossScan) : GeneralLossAlgorithm × LossScan :=
  ({ a with
    lossDetectionTimeout := r.lossDetectionTimeout
    leastInFlight := some (r.leastInFlight.getD (c.largestNewlyAcked + 1)) }, r)

def detectLosses : GeneralLossAlgorithm × LossScan :=
  if a.noneMissing c then ({ a with lossDetectionTimeout := 0, leastInFlight := some (c.largestNewlyAcked + 1) }, {})
  else
    let start := scanStart m (a.leastInFlight.map fun least => skipAcked least c.packetsAcked)
    a.finish c (a.scan m c start.1 start.2 {})

def reset : GeneralLossAlgorithm := { a with lossDetectionTimeout := 0, leastInFlight := none }

def fullScan : LossScan := a.scan m c m.leastUnacked m.unackedPackets {}

end GeneralLossAlgorithm

open GeneralLossAlgorithm

/-! ## The loop -/

section
variable {t : LossTuning} {m : QuicUnackedPacketMap F} {c : LossCall}

theorem scan_of_not_watched {info : QuicTransmissionInfo F} (h : t.watches m info = false) (p : Nat)
    (rest : List (QuicTransmissionInfo F)) (r : LossScan) :
    t.scan m c p (info :: rest) r = t.scan m c (p + 1) rest r := by
  rw [scan, h]
  split
  next hlt =>
    cases rest with
    | nil => rfl
    | cons x rest => rw [scan, if_pos (Nat.lt_succ_of_lt hlt)]
  · rfl

theorem scan_append {l : List (QuicTransmissionInfo F)} (h : ∀ info ∈ l, t.watches m info = false) (p : Nat)
    (l' : List (QuicTransmissionInfo F)) (r : LossScan) :
    t.scan m c p (l ++ l') r = t.scan m c (p + l.length) l' r := by
  induction l generalizing p with
  | nil => rfl
  | cons info l ih =>
    rw [cons_append, scan_of_not_watched (h info mem_cons_self), ih fun x hx => h x (mem_cons_of_mem _ hx),
      length_cons, add_right_comm, add_assoc]

theorem scan_of_watched {info : QuicTransmissionInfo F} (h : t.watches m info = true) {p : Nat}
    (hp : p ≤ c.largestNewlyAcked)
    (rest : List (QuicTransmissionInfo F)) (r : LossScan) :
    (∃ r', r'.packetsLost = r.packetsLost ++ [(p, info.bytesSent)] ∧ r'.leastInFlight = r.leastInFlight ∧
      t.scan m c p (info :: rest) r = t.scan m c (p + 1) rest r') ∨
    ((t.scan m c p (info :: rest) r).packetsLost = r.packetsLost ∧
      (t.scan m c p (info :: rest) r).leastInFlight = some p) := by
  rw [scan, if_neg (not_lt.2 hp), h, if_neg (by simp)]
  dsimp only
  split
  · refine .inl ⟨_, ?_, ?_, rfl⟩ <;> rfl
  split
  · exact .inr ⟨rfl, rfl⟩
  · refine .inl ⟨_, ?_, ?_, rfl⟩ <;> rfl

structure Scanned (t : LossTuning) (m : QuicUnackedPacketMap F) (c : LossCall) (p : Nat)
    (l : List (QuicTransmissionInfo F))
    (r r' : LossScan) : Prop where
  lost : ∀ x ∈ r'.packetsLost, x ∈ r.packetsLost ∨
    ∃ (i : Nat) (info : _), l[i]? = some info ∧ t.watches m info = true ∧ x.1 = p + i ∧ x.1 ≤ c.largestNewlyAcked
  kept : ∀ x ∈ r.packetsLost, x ∈ r'.packetsLost
  all : ∀ (i : Nat) info, l[i]? = some info → t.watches m info = true →
    p + i < r'.leastInFlight.getD (c.largestNewlyAcked + 1) →
    ∃ b, (p + i, b) ∈ r'.packetsLost
  least : r'.leastInFlight.getD (c.largestNewlyAcked + 1) ≤ c.largestNewlyAcked + 1

variable {p : Nat} {info : QuicTransmissionInfo F} {rest : List (QuicTransmissionInfo F)} {r r' r'' : LossScan}

theorem Scanned.cons (h : Scanned t m c (p + 1) rest r' r'') (hp : p ≤ c.largestNewlyAcked)
    (hlost : ∀ x ∈ r'.packetsLost, x ∈ r.packetsLost ∨ t.watches m info = true ∧ x.1 = p)
    (hkept : ∀ x ∈ r.packetsLost, x ∈ r'.packetsLost) (hown : t.watches m info = true → ∃ b, (p, b) ∈ r'.packetsLost) :
    Scanned t m c p (info :: rest) r r'' := by
  refine ⟨fun x hx => ?_, fun x hx => h.kept x (hkept x hx), fun i x hi hw hlt => ?_, h.least⟩
  · rcases h.lost x hx with hx | ⟨i, y, hi, hw, he, hle⟩
    · rcases hlost x hx with hx | ⟨hw, he⟩
      · exact .inl hx
      · exact .inr ⟨0, info, rfl, hw, he, he ▸ hp⟩
    · exact .inr ⟨i + 1, y, hi, hw, by omega, hle⟩
  · cases i with
    | zero =>
      cases hi
      obtain ⟨b, hb⟩ := hown hw
      exact ⟨b, h.kept _ hb⟩
    | succ i =>
      have he : p + (i + 1) = p + 1 + i := by omega
      rw [he] at hlt ⊢
      exact h.all i x hi hw hlt

theorem scanned (l : List (QuicTransmissionInfo F)) (p : Nat) (r : LossScan) (hr : r.leastInFlight = none) :
    Scanned t m c p l r (t.scan m c p l r) := by
  induction l generalizing p r with
  | nil =>
    rw [scan]
    exact ⟨fun _ h => .inl h, fun _ h => h, nofun, by rw [hr]; exact le_rfl⟩
  | cons info rest ih =>
    by_cases hp : c.largestNewlyAcked < p
    · rw [scan, if_pos hp]
      refine ⟨fun _ h => .inl h, fun _ h => h, fun i _ _ _ hi => ?_, by rw [hr]; exact le_rfl⟩
      rw [hr, getD_none] at hi
      omega
    rw [not_lt] at hp
    cases hw : t.watches m info with
    | false =>
      rw [scan_of_not_watched hw]
      exact (ih (p + 1) r hr).cons hp (fun _ h => .inl h) (fun _ h => h) fun h => (by cases hw.symm.trans h)
    | true =>
      rcases scan_of_watched hw hp rest r with ⟨r', hl, hn, he⟩ | ⟨hl, hn⟩
      · rw [he]
        refine (ih (p + 1) r' (hn.trans hr)).cons hp (fun x hx => ?_) (fun x hx => ?_) fun _ => ⟨info.bytesSent, ?_⟩
        · rw [hl, mem_append, mem_singleton] at hx
          rcases hx with hx | rfl
          · exact .inl hx
          · exact .inr ⟨hw, rfl⟩
        · rw [hl]
          exact mem_append_left _ hx
        · rw [hl]
          exact mem_append_right _ mem_cons_self
      · refine ⟨fun x hx => .inl (hl ▸ hx), fun x hx => hl.symm ▸ hx, fun i _ _ _ hlt => ?_, ?_⟩
        · rw [hn, getD_some] at hlt
          omega
        · rw [hn, getD_some]
          omega

end

/-! ## The first packet in flight -/

section
variable {t : LossTuning} {a : GeneralLossAlgorithm} {m m' : QuicUnackedPacketMap F} {c : LossCall}

structure ClearTo (t : LossTuning) (m : QuicUnackedPacketMap F) (least : Nat) : Prop where
  sent : least ≤ m.largestSentPacket.getD 0 + 1
  clear : ∀ (i : Nat) info, m.unackedPackets[i]? = some info → t.watches m info = true → least ≤ m.leastUnacked + i

def Landed (m : QuicUnackedPacketMap F) (p : Nat) : Prop :=
  p ≤ m.largestSentPacket.getD 0 ∧
    (m.leastUnacked ≤ p → m.unackedPackets[p - m.leastUnacked]?.all (fun info => !info.inFlight) = true)

/-- The packets acknowledged are in ascending order, and out of flight. -/
def LossCall.Legal (c : LossCall) (m : QuicUnackedPacketMap F) : Prop :=
  c.largestNewlyAcked ≤ m.largestSentPacket.getD 0 ∧ c.packetsAcked.Pairwise (· < ·) ∧ ∀ p ∈ c.packetsAcked, Landed m p

instance (c : LossCall) (m : QuicUnackedPacketMap F) : Decidable (c.Legal m) := by
  unfold LossCall.Legal Landed
  infer_instance

theorem ClearTo.skipAcked {least : Nat} {acked : List Nat} (h : ClearTo t m least) (ha : ∀ p ∈ acked, Landed m p) :
    ClearTo t m (GeneralLossAlgorithm.skipAcked least acked) := by
  induction acked generalizing least with
  | nil => exact h
  | cons p acked ih =>
    rw [GeneralLossAlgorithm.skipAcked]
    split
    next he =>
      subst he
      obtain ⟨hp, hout⟩ := ha p mem_cons_self
      refine ih ⟨Nat.succ_le_succ hp, fun i info hi hw => ?_⟩ fun q hq => ha q (mem_cons_of_mem _ hq)
      refine Nat.lt_of_le_of_ne (h.clear i info hi hw) fun he => ?_
      have hflight := hout (by omega)
      rw [he, Nat.add_sub_cancel_left, hi] at hflight
      rw [watches, Bool.and_eq_true] at hw
      rw [all_some, hw.2] at hflight
      cases hflight
    · exact h

variable {least : Nat}

theorem skipAcked_contiguous {acked : List Nat} (ha : (least :: acked).Pairwise (· < ·)) :
    (∀ last, (least :: acked).getLast? = some last → least + acked.length ≤ last) ∧
    ((least :: acked).getLast? = some (least + acked.length) →
      GeneralLossAlgorithm.skipAcked least (least :: acked) = least + acked.length + 1) := by
  induction acked generalizing least with
  | nil =>
    refine ⟨fun last hl => ?_, fun _ => ?_⟩
    · cases hl
      exact le_rfl
    · rw [skipAcked, if_pos rfl]
      rfl
  | cons p acked ih =>
    obtain ⟨hp, hrest⟩ := pairwise_cons.1 ha
    have hlt := hp p mem_cons_self
    obtain ⟨hle, heq⟩ := ih hrest
    rw [getLast?_cons_cons, length_cons]
    refine ⟨fun last hl => ?_, fun hl => ?_⟩
    · have := hle last hl
      omega
    · have := hle _ hl
      obtain rfl : p = least + 1 := by omega
      rw [skipAcked, if_pos rfl, heq (by rw [hl]; congr 1; omega)]
      omega

theorem ClearTo.fullScan_eq (h : ClearTo a.toLossTuning m least) (hn : Dense m) :
    a.fullScan m c =
      a.scan m c (m.leastUnacked + (least - m.leastUnacked)) (m.unackedPackets.drop (least - m.leastUnacked)) {} := by
  have hskip : ∀ info ∈ m.unackedPackets.take (least - m.leastUnacked), a.watches m info = false := by
    intro info hi
    obtain ⟨i, hi⟩ := mem_iff_getElem?.1 hi
    by_contra hw
    rw [getElem?_take] at hi
    split at hi
    · have := h.clear i info hi (Bool.eq_true_of_not_eq_false hw)
      omega
    · cases hi
  have hsent := h.sent
  rw [QuicUnackedPacketMap.Dense] at hn
  unfold fullScan
  conv => lhs; rw [← take_append_drop (least - m.leastUnacked) m.unackedPackets]
  rw [scan_append hskip, length_take, min_eq_left (by omega)]

/-- **One call.** It finds what a look at all packets finds. -/
theorem detectLosses_eq (hn : Dense m) (hc : c.Legal m)
    (h : ∀ least, a.leastInFlight = some least → ClearTo a.toLossTuning m least) :
    a.detectLosses m c = a.finish c (a.fullScan m c) := by
  cases hleast : a.leastInFlight with
  | none =>
    rw [detectLosses, noneMissing, hleast]
    rfl
  | some least =>
    have hclear := (h least hleast).skipAcked hc.2.2
    rw [detectLosses, hleast, map_some]
    split
    next hnone =>
      simp only [noneMissing, hleast, any_some, Bool.and_eq_true, decide_eq_true_eq] at hnone
      obtain ⟨⟨hfirst, hlast⟩, hlen⟩ := hnone
      obtain ⟨acked, he⟩ := head?_eq_some_iff.1 hfirst
      -- All packets up to the largest one are acknowledged, so there is nothing to be found.
      have hskip : skipAcked least c.packetsAcked = c.largestNewlyAcked + 1 := by
        have hasc := hc.2.1
        rw [he] at hasc hlast hlen ⊢
        rw [length_cons] at hlen
        have hl : c.largestNewlyAcked = least + acked.length := by omega
        rw [hl] at hlast ⊢
        exact (skipAcked_contiguous hasc).2 hlast
      rw [hskip] at hclear
      have hidle : a.fullScan m c = {} := by
        rw [hclear.fullScan_eq hn]
        cases m.unackedPackets.drop (c.largestNewlyAcked + 1 - m.leastUnacked) with
        | nil => rfl
        | cons info rest => rw [scan, if_pos (by omega)]
      rw [hidle]
      rfl
    · rw [hclear.fullScan_eq hn]
      unfold scanStart
      dsimp only
      split
      next hin =>
        simp only [Bool.and_eq_true, decide_eq_true_eq] at hin
        rw [Nat.add_sub_cancel' hin.1]
      next hout =>
        simp only [Bool.and_eq_true, decide_eq_true_eq, not_and_or, not_le] at hout
        have hsent := hclear.sent
        rw [Nat.sub_eq_zero_of_le (by omega)]
        rfl

/-! ## Runs -/

theorem watches_of_marks (h : Marks m m') {i : Nat} {info' : QuicTransmissionInfo F}
    (hi : m'.unackedPackets[i]? = some info')
    (hw : t.watches m' info' = true) : ∃ info, m.unackedPackets[i]? = some info ∧ t.watches m info = true := by
  obtain ⟨info, hinfo, ho, hf⟩ := h.entry i info' hi
  refine ⟨info, hinfo, ?_⟩
  have hlevel : info'.encryptionLevel = info.encryptionLevel := congrArg Origin.encryptionLevel ho
  have hspace : m'.getPacketNumberSpace = m.getPacketNumberSpace := by
    funext level
    rw [getPacketNumberSpace, getPacketNumberSpace, h.perspective, h.multiple]
  rw [watches, Bool.and_eq_true, hspace, hlevel] at hw
  rw [watches, hw.1, hf hw.2]
  rfl

theorem ClearTo.marks (h : ClearTo t m least) (hm : Marks m m') : ClearTo t m' least := by
  refine ⟨hm.largestSentPacket ▸ h.sent, fun i info' hi hw => ?_⟩
  obtain ⟨info, hinfo, hw⟩ := watches_of_marks hm hi hw
  rw [hm.leastUnacked]
  exact h.clear i info hinfo hw

theorem ClearTo.step {e : QuicUnackedPacketMap.Ev F} (h : ClearTo t m least) (hn : Dense m) (hs : m.step e = some m') :
    ClearTo t m' least := by
  rcases step_cases hs with ⟨p, info, -, hp, hs⟩ | ⟨-, rfl⟩ | ⟨-, ht⟩
  · have hsent := h.sent
    rw [QuicUnackedPacketMap.Dense] at hn
    refine ⟨?_, fun i info hi hw => ?_⟩
    · rw [hs.largestSentPacket, getD_some]
      omega
    · rw [hs.leastUnacked]
      rw [watches, hs.space] at hw
      rw [hs.entries, append_assoc, getElem?_append] at hi
      split at hi
      · exact h.clear i info hi hw
      · omega
  · obtain ⟨k, -, he, -⟩ := m.popUseless_spec m.leastUnacked m.unackedPackets
    unfold QuicUnackedPacketMap.removeObsoletePackets
    rw [he]
    refine ⟨h.sent, fun i info hi hw => ?_⟩
    rw [getElem?_drop] at hi
    rw [add_assoc]
    exact h.clear (k + i) info hi hw
  · exact h.marks ht.marks

end

structure LossReport (F : Type*) where
  map : QuicUnackedPacketMap F
  call : LossCall
  result : LossScan

structure LossDetection (F : Type*) where
  map : QuicUnackedPacketMap F
  algorithm : GeneralLossAlgorithm
  reports : List (LossReport F) := []

namespace LossDetection

inductive Ev (F : Type*) where
  | packets (e : QuicUnackedPacketMap.Ev F)
  | detectLosses (call : LossCall)
  | reset
  | tune (reorderingShift reorderingThreshold : Nat) (usePacketThresholdForRuntPackets : Bool)

def fresh (perspective : Perspective) (multiple : Bool) (space : PacketNumberSpace) : LossDetection F where
  map := { perspective := perspective, supportsMultiplePacketNumberSpaces := multiple }
  algorithm := { packetNumberSpace := space }

/-- `InvokeLossDetection()` takes lost packets out of flight. If `full`, the algorithm has an uninitialised
`least_in_flight_` in every call. -/
def step (full : Bool) (u : LossDetection F) : Ev F → Option (LossDetection F)
  | .packets e => (u.map.step e).map fun map => { u with map }
  | .detectLosses call =>
    if call.Legal u.map then
      let algorithm := if full then { u.algorithm with leastInFlight := none } else u.algorithm
      let (algorithm, result) := algorithm.detectLosses u.map call
      some {
        map := result.packetsLost.foldl (fun m packet => m.removeFromInFlight packet.1) u.map
        algorithm
        reports := u.reports ++ [⟨u.map, call, result⟩] }
    else none
  | .reset => some { u with algorithm := u.algorithm.reset }
  | .tune reorderingShift reorderingThreshold usePacketThresholdForRuntPackets =>
    some { u with
      algorithm := { u.algorithm with reorderingShift, reorderingThreshold, usePacketThresholdForRuntPackets } }

theorem landed_foldl (lost : List (Nat × Nat)) (m : QuicUnackedPacketMap F) :
    Marks m (lost.foldl (fun m packet => m.removeFromInFlight packet.1) m) ∧
    ∀ x ∈ lost, ∀ (i : Nat) info, (lost.foldl (fun m packet => m.removeFromInFlight packet.1) m).unackedPackets[i]? =
      some info → m.leastUnacked + i = x.1 → info.inFlight = false := by
  induction lost generalizing m with
  | nil => exact ⟨.refl m, nofun⟩
  | cons y lost ih =>
    have hy := marks_removeFromInFlight m y.1
    obtain ⟨hm, hout⟩ := ih (m.removeFromInFlight y.1)
    refine ⟨hy.trans hm, fun x hx i info hi he => ?_⟩
    rcases mem_cons.1 hx with rfl | hx
    · obtain ⟨info', hi', -, hf⟩ := hm.entry i info hi
      have hoff : info'.inFlight = false := by
        rw [show i = x.1 - m.leastUnacked by omega] at hi'
        exact inFlight_removeFromInFlight hi'
      by_contra hne
      rw [hf (Bool.eq_true_of_not_eq_false hne)] at hoff
      cases hoff
    · exact hout x hx i info hi (by rw [hy.leastUnacked, he])

def Justified (space : PacketNumberSpace) (x : LossReport F) (packetNumber : Nat) : Prop :=
  packetNumber ≤ x.call.largestNewlyAcked ∧ x.map.leastUnacked ≤ packetNumber ∧
    ∃ info, x.map.unackedPackets[packetNumber - x.map.leastUnacked]? = some info ∧ info.inFlight = true ∧
      x.map.getPacketNumberSpace info.encryptionLevel = space

structure Inv (space : PacketNumberSpace) (u : LossDetection F) : Prop where
  watched : u.algorithm.packetNumberSpace = space
  dense : Dense u.map
  clear : ∀ least, u.algorithm.leastInFlight = some least → ClearTo u.algorithm.toLossTuning u.map least
  reports : ∀ x ∈ u.reports, ∀ packet ∈ x.result.packetsLost, Justified space x packet.1

variable {space : PacketNumberSpace} {u u' : LossDetection F}

theorem Inv.step_eq (h : Inv space u) (e : Ev F) : step false u e = step true u e := by
  cases e with
  | detectLosses call =>
    dsimp only [step]
    by_cases hc : call.Legal u.map
    · have hcached := detectLosses_eq h.dense hc h.clear
      have hfull := detectLosses_eq (a := { u.algorithm with leastInFlight := none }) h.dense hc nofun
      rw [if_pos hc, if_pos hc, if_neg Bool.false_ne_true, if_pos rfl, hcached, hfull]
      rfl
    · rw [if_neg hc, if_neg hc]
  | packets | reset | tune => rfl

theorem Inv.detectLosses (h : Inv space u) {call : LossCall} (hc : call.Legal u.map)
    (hs : LossDetection.step false u (.detectLosses call) = some u') : Inv space u' := by
  have hscan : Scanned u.algorithm.toLossTuning u.map call u.map.leastUnacked u.map.unackedPackets {}
    (u.algorithm.fullScan u.map call) :=
    scanned _ _ _ rfl
  dsimp only [LossDetection.step] at hs
  rw [if_pos hc, if_neg Bool.false_ne_true, detectLosses_eq h.dense hc h.clear] at hs
  cases hs
  dsimp only [finish]
  obtain ⟨hm, hout⟩ := landed_foldl (u.algorithm.fullScan u.map call).packetsLost u.map
  refine ⟨h.watched, h.dense.marks hm, fun least hl => ?_, fun x hx packet hp => ?_⟩
  · cases hl
    refine ⟨?_, fun i info hi hw => ?_⟩
    · dsimp only
      rw [hm.largestSentPacket]
      exact le_trans hscan.least (Nat.succ_le_succ hc.1)
    · obtain ⟨info', hi', hw'⟩ := watches_of_marks hm hi hw
      dsimp only at hi ⊢
      rw [hm.leastUnacked]
      by_contra hlt
      obtain ⟨b, hb⟩ := hscan.all i info' hi' hw' (not_le.1 hlt)
      rw [watches, hout _ hb i info hi rfl, Bool.and_false] at hw
      cases hw
  · rcases mem_append.1 hx with hx | hx
    · exact h.reports x hx packet hp
    · obtain rfl := mem_singleton.1 hx
      rcases hscan.lost packet hp with hp | ⟨i, info, hi, hw, he, hle⟩
      · cases hp
      · rw [watches, Bool.and_eq_true, decide_eq_true_eq, h.watched] at hw
        refine ⟨hle, he ▸ Nat.le_add_right _ _, info, ?_, hw.2, hw.1⟩
        rwa [he, Nat.add_sub_cancel_left]

theorem Inv.step {e : Ev F} (h : Inv space u) (hs : LossDetection.step false u e = some u') : Inv space u' := by
  cases e with
  | packets e =>
    obtain ⟨m', hm, rfl⟩ := map_eq_some_iff.1 hs
    exact ⟨h.watched, h.dense.step hm, fun least hl => (h.clear least hl).step h.dense hm, h.reports⟩
  | detectLosses call => exact h.detectLosses (ite_none_right_eq_some.1 hs).1 hs
  | reset =>
    cases hs
    exact ⟨h.watched, h.dense, nofun, h.reports⟩
  | tune _ _ _ =>
    cases hs
    exact ⟨h.watched, h.dense, fun least hl => ⟨(h.clear least hl).sent, (h.clear least hl).clear⟩, h.reports⟩

/-- **The cached start is transparent.** A run of the loss detection is a run with `least_in_flight_`
uninitialised in every call, with the same reports and timeouts. -/
theorem cached_eq_full {perspective : Perspective} {multiple : Bool} {es : List (Ev F)}
    (hr : Lts.run (LossDetection.step false) (fresh perspective multiple space) es = some u) :
    Lts.run (LossDetection.step true) (fresh perspective multiple space) es = some u ∧
    ∀ x ∈ u.reports, ∀ packet ∈ x.result.packetsLost, Justified space x packet.1 := by
  have h0 : Inv space (fresh perspective multiple space : LossDetection F) := by
    refine ⟨rfl, rfl, fun least hl => ?_, nofun⟩
    cases hl
    exact ⟨le_refl 1, nofun⟩
  have h : Inv space u := Lts.run_inv (fun _ _ _ h hs => h.step hs) h0 hr
  refine ⟨?_, h.reports⟩
  rw [← hr]
  exact (Lts.run_congr (fun _ _ _ h hs => Inv.step h hs) (fun _ e h => Inv.step_eq h e) h0).symm

def sentAt (packetNumber : Nat) (encryptionLevel : EncryptionLevel) : Ev Nat :=
  .packets (.addSentPacket { packetNumber, encryptedLength := 1200, encryptionLevel } packetNumber true true)

def reordered : List (Ev Nat) :=
  [sentAt 1 .forwardSecure, sentAt 2 .handshake, sentAt 3 .forwardSecure, sentAt 4 .forwardSecure,
    sentAt 5 .forwardSecure,
   .packets (.removeFromInFlight 5), .detectLosses ⟨100, 0, 0, 5, [5]⟩,
   .packets .removeObsoletePackets, .packets (.removeFromInFlight 3), .detectLosses ⟨5000, 0, 0, 3, [3]⟩,
   .detectLosses ⟨5000, 0, 0, 5, []⟩]

theorem cached_eq_full_reordered :
    ∃ u, Lts.run (LossDetection.step true) (fresh .isClient true .applicationData) reordered = some u ∧
    u.reports.map (fun x => (x.result.packetsLost, x.result.lossDetectionTimeout)) =
      [([(1, 1200)], 1253), ([], 0), ([(4, 1200)], 0)] ∧
    u.algorithm.leastInFlight = some 6 ∧ ∀ x ∈ u.reports, ∀ packet ∈ x.result.packetsLost,
      Justified .applicationData x packet.1 := by
  have hr : Lts.run (LossDetection.step false) (fresh .isClient true .applicationData) reordered = some _ := rfl
  obtain ⟨hfull, hlost⟩ := cached_eq_full hr
  exact ⟨_, hfull, rfl, rfl, hlost⟩

end LossDetection

end Quictun
