import Quictun.Word

/-!
# Truncated packet numbers

A packet carries only the low bytes of its number. The creator chooses how many from the
numbers the peer may still be waiting for; the framer picks, among the numbers that end in
these bytes in the epoch of the largest packet received and in the two beside it, the one
closest to the next number it expects. The framer's arithmetic is unsigned and wraps.
-/

namespace Quictun

inductive QuicPacketNumberLength
  | packet1Byte | packet2Byte | packet3Byte | packet4Byte | packet6Byte | packet8Byte
deriving DecidableEq

def QuicPacketNumberLength.bytes : QuicPacketNumberLength → Nat
  | packet1Byte => 1
  | packet2Byte => 2
  | packet3Byte => 3
  | packet4Byte => 4
  | packet6Byte => 6
  | packet8Byte => 8

namespace QuicFramer

def delta (a b : Nat) : Nat := if a < b then b - a else a - b

def closestTo (target a b : Nat) : Nat := if delta target a < delta target b then a else b

def calculatePacketNumberFromWire (packetNumberLength : QuicPacketNumberLength) (basePacketNumber : Option Nat)
    (packetNumber : Nat) : Nat :=
  match basePacketNumber with
  | none => packetNumber
  | some base =>
    let epochDelta := 2 ^ (8 * packetNumberLength.bytes)
    let nextPacketNumber := Word.add base 1
    let epoch := base &&& Word.not (epochDelta - 1)
    let prevEpoch := Word.sub epoch epochDelta
    let nextEpoch := Word.add epoch epochDelta
    closestTo nextPacketNumber (Word.add epoch packetNumber)
      (closestTo nextPacketNumber (Word.add prevEpoch packetNumber) (Word.add nextEpoch packetNumber))

def getMinPacketNumberLength (packetNumber : Nat) : QuicPacketNumberLength :=
  if packetNumber < 2 ^ 8 then .packet1Byte
  else if packetNumber < 2 ^ 16 then .packet2Byte
  else if packetNumber < 2 ^ 32 then .packet4Byte
  else .packet6Byte

end QuicFramer

structure QuicPacketCreator where
  nextSendingPacketNumber : Nat
  queuedFrames : Nat := 0
  packetNumberLength : QuicPacketNumberLength := .packet4Byte
deriving DecidableEq

namespace QuicPacketCreator

def updatePacketNumberLength (c : QuicPacketCreator) (leastPacketAwaitedByPeer maxPacketsInFlight : Nat) :
    QuicPacketCreator :=
  if c.queuedFrames ≠ 0 then c
  else
    let currentDelta := Word.sub c.nextSendingPacketNumber leastPacketAwaitedByPeer
    let delta := max currentDelta maxPacketsInFlight
    let packetNumberLength := QuicFramer.getMinPacketNumberLength (Word.mul delta 4)
    if c.packetNumberLength = packetNumberLength then c
    else { c with packetNumberLength := packetNumberLength }

def wirePacketNumber (c : QuicPacketCreator) : Nat := c.nextSendingPacketNumber % 256 ^ c.packetNumberLength.bytes

end QuicPacketCreator

namespace QuicFramer

/-! ## The closest candidate -/

variable {a b target : Nat}

theorem closestTo_left (h : delta target a < delta target b) : closestTo target a b = a := if_pos h

theorem closestTo_right (h : ¬ delta target a < delta target b) : closestTo target a b = b := if_neg h

variable {d t : Nat}

theorem le_delta (h : t + d ≤ a ∨ a + d ≤ t) : d ≤ delta t a := by
  unfold delta
  split <;> omega

theorem le_delta_closestTo (ha : d ≤ delta t a) (hb : d ≤ delta t b) : d ≤ delta t (closestTo t a b) := by
  unfold closestTo
  split
  · exact ha
  · exact hb

variable {E : Nat}

theorem closestTo_near (ha : delta t a < E / 2) (hb : E / 2 ≤ delta t b) : closestTo t a b = a :=
  closestTo_left (by omega)

theorem closestTo_far (hb : delta t b ≤ E / 2) (ha : E / 2 ≤ delta t a) : closestTo t a b = b :=
  closestTo_right (by omega)

theorem previous_epoch {E b m : Nat} (hE : 0 < E) (hm : m < E) (hEw : 4 * E ≤ 2 ^ 64) (hb : b / E * E < 2 ^ 63) :
    (E ≤ b / E * E ∧ Word.add (Word.sub (b / E * E) E) m = b / E * E - E + m) ∨
      (b / E * E = 0 ∧ Word.add (Word.sub (b / E * E) E) m = 2 ^ 64 - E + m) := by
  by_cases h0 : b / E = 0
  · refine .inr ⟨by rw [h0, zero_mul], ?_⟩
    have hsub : Word.sub 0 E = 2 ^ 64 - E := by
      rw [Word.sub]
      omega
    rw [h0, zero_mul, hsub, Word.add_eq (by omega)]
  · have hle : E ≤ b / E * E := Nat.le_mul_of_pos_left E (Nat.pos_of_ne_zero h0)
    exact .inl ⟨hle, by rw [Word.sub_eq hle (by omega), Word.add_eq (by omega)]⟩

/-- The epochs beside that of `b` cannot win, nor can a number that wrapped around. -/
theorem closestTo_epochs {E b n : Nat} (hE : 0 < E) (hEw : 4 * E ≤ 2 ^ 64) (hn : n < 2 ^ 63) (hb : b < 2 ^ 63)
    (hlo : 4 * n < 4 * (b + 1) + E) (hhi : 4 * (b + 1) < 4 * n + E) :
    closestTo (Word.add b 1) (Word.add (b / E * E) (n % E))
      (closestTo (Word.add b 1) (Word.add (Word.sub (b / E * E) E) (n % E))
        (Word.add (Word.add (b / E * E) E) (n % E))) = n := by
  have hw : n % E < E := Nat.mod_lt n hE
  have hbm : b % E < E := Nat.mod_lt b hE
  have hbe : b / E * E + b % E = b := Nat.div_add_mod' b E
  have hne : n / E * E + n % E = n := Nat.div_add_mod' n E
  have hnext : Word.add b 1 = b + 1 := Word.add_eq (by omega)
  have hcur : Word.add (b / E * E) (n % E) = b / E * E + n % E := Word.add_eq (by omega)
  have hnextE : Word.add (Word.add (b / E * E) E) (n % E) = b / E * E + E + n % E := by
    rw [Word.add_eq (a := b / E * E) (by omega), Word.add_eq (by omega)]
  rw [hnext, hcur, hnextE]
  have hprev := previous_epoch (b := b) hE hw hEw (by omega)
  generalize Word.add (Word.sub (b / E * E) E) (n % E) = prev at hprev ⊢
  have hcase : n / E = b / E ∨ n / E + 1 = b / E ∨ n / E = b / E + 1 := by
    have h1 : n / E < b / E + 2 := by
      rw [Nat.div_lt_iff_lt_mul hE, Nat.add_mul]
      omega
    have h2 : b / E < n / E + 2 := by
      rw [Nat.div_lt_iff_lt_mul hE, Nat.add_mul]
      omega
    omega
  have hd : 4 * delta (b + 1) n < E := by
    unfold delta
    split <;> omega
  rcases hcase with heq | heq | heq
  · -- the same epoch
    rw [heq] at hne
    have hcand : b / E * E + n % E = n := by omega
    rw [hcand]
    refine closestTo_near (E := E) (by omega) ?_
    apply le_delta_closestTo
    · apply le_delta
      omega
    · apply le_delta
      omega
  · -- the epoch before; it has not wrapped around
    have hmul : n / E * E + E = b / E * E := by rw [← heq, Nat.succ_mul]
    have hcand : prev = n := by omega
    have hin : closestTo (b + 1) n (b / E * E + E + n % E) = n :=
      closestTo_near (E := E) (by omega) (le_delta (by omega))
    rw [hcand, hin]
    exact closestTo_far (E := E) (by omega) (le_delta (by omega))
  · -- the epoch after
    have hmul : n / E * E = b / E * E + E := by rw [heq, Nat.succ_mul]
    have hcand : b / E * E + E + n % E = n := by omega
    have hin : closestTo (b + 1) prev n = n := closestTo_far (E := E) (by omega) (le_delta (by omega))
    rw [hcand, hin]
    exact closestTo_far (E := E) (by omega) (le_delta (by omega))

/-! ## The length -/

theorem lt_epoch_getMinPacketNumberLength (hd : d < 2 ^ 32) :
    d < 2 ^ (8 * (getMinPacketNumberLength d).bytes) ∧ (getMinPacketNumberLength d).bytes ≤ 4 := by
  unfold getMinPacketNumberLength
  by_cases h1 : d < 2 ^ 8
  · rw [if_pos h1]
    exact ⟨h1, by decide⟩
  rw [if_neg h1]
  by_cases h2 : d < 2 ^ 16
  · rw [if_pos h2]
    exact ⟨h2, by decide⟩
  rw [if_neg h2, if_pos hd]
  exact ⟨hd, by decide⟩

end QuicFramer

namespace QuicPacketCreator

variable {c : QuicPacketCreator} {least maxPacketsInFlight : Nat}

theorem packetNumberLength_update (hq : c.queuedFrames = 0) (hn : c.nextSendingPacketNumber < 2 ^ 62)
    (hl : least ≤ c.nextSendingPacketNumber)
    (hd : max (c.nextSendingPacketNumber - least) maxPacketsInFlight < 2 ^ 30) :
    (c.updatePacketNumberLength least maxPacketsInFlight).packetNumberLength =
      QuicFramer.getMinPacketNumberLength (max (c.nextSendingPacketNumber - least) maxPacketsInFlight * 4) := by
  unfold updatePacketNumberLength
  rw [if_neg (not_not_intro hq), Word.sub_eq hl (by omega)]
  dsimp only
  rw [Word.mul_eq (by omega)]
  split
  · assumption
  · rfl

theorem nextSendingPacketNumber_update (c : QuicPacketCreator) (least maxPacketsInFlight : Nat) :
    (c.updatePacketNumberLength least maxPacketsInFlight).nextSendingPacketNumber = c.nextSendingPacketNumber := by
  unfold updatePacketNumberLength
  split
  · rfl
  dsimp only
  split <;> rfl

/-- **Truncated packet numbers are recovered** by every receiver whose next expected number is within the
distance the length was chosen for. -/
theorem packetNumber_recovered {base : Nat} (hq : c.queuedFrames = 0) (hn : c.nextSendingPacketNumber < 2 ^ 62)
    (hl : least ≤ c.nextSendingPacketNumber) (hd : max (c.nextSendingPacketNumber - least) maxPacketsInFlight < 2 ^ 30)
    (hlo : c.nextSendingPacketNumber ≤ base + 1 + max (c.nextSendingPacketNumber - least) maxPacketsInFlight)
    (hhi : base + 1 ≤ c.nextSendingPacketNumber + max (c.nextSendingPacketNumber - least) maxPacketsInFlight) :
    QuicFramer.calculatePacketNumberFromWire (c.updatePacketNumberLength least maxPacketsInFlight).packetNumberLength
      (some base) (c.updatePacketNumberLength least maxPacketsInFlight).wirePacketNumber =
        c.nextSendingPacketNumber := by
  unfold wirePacketNumber
  rw [packetNumberLength_update hq hn hl hd, nextSendingPacketNumber_update]
  generalize max (c.nextSendingPacketNumber - least) maxPacketsInFlight = d at hd hlo hhi
  obtain ⟨hlt, hlen⟩ := QuicFramer.lt_epoch_getMinPacketNumberLength (d := d * 4) (by omega)
  generalize (QuicFramer.getMinPacketNumberLength (d * 4)) = len at hlt hlen
  have hpow : 2 ^ (8 * len.bytes) ≤ 2 ^ 32 := Nat.pow_le_pow_right (by decide) (by omega)
  have h256 : 256 ^ len.bytes = 2 ^ (8 * len.bytes) := by rw [Nat.pow_mul]
  unfold QuicFramer.calculatePacketNumberFromWire
  dsimp only
  rw [Word.and_not_low (by omega) (by omega), h256]
  exact QuicFramer.closestTo_epochs (by omega) (by omega) (by omega) (by omega) (by omega) (by omega)

theorem packetNumber_recovered_nextEpoch :
    QuicFramer.calculatePacketNumberFromWire .packet1Byte (some 250) (270 % 256) = 270 := by
  exact @packetNumber_recovered ⟨270, 0, .packet4Byte⟩ 251 10 250 rfl (by decide) (by decide) (by decide) (by decide)
    (by decide)

end QuicPacketCreator

end Quictun
