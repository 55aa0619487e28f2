import Mathlib.Algebra.Order.Ring.Nat
import Mathlib.Logic.Function.Basic
import Quictun.Run
import Quictun.StreamIdManager

/-!
# Packets in flight

`QuicUnackedPacketMap` keeps one entry for each packet number from `least_unacked_` on, numbers that were
never sent included. Three totals of the packets in flight are kept beside the entries: bytes, packets,
and bytes for each packet number space. A total that would fall below zero is reported as a bug; `bugs`
counts these reports.
-/

namespace Quictun

open List Option Function

inductive EncryptionLevel
  | initial | handshake | zeroRtt | forwardSecure
deriving DecidableEq

inductive PacketNumberSpace
  | initialData | handshakeData | applicationData
deriving DecidableEq

inductive SentPacketState
  | outstanding | neverSent | acked | unackable | neutered
  | handshakeRetransmitted | lost | ptoRetransmitted | notContributingRtt
deriving DecidableEq

def QuicUtils.isAckable (state : SentPacketState) : Bool :=
  state != .neverSent && state != .acked && state != .unackable

def QuicUtils.getPacketNumberSpace : EncryptionLevel → PacketNumberSpace
  | .initial => .initialData
  | .handshake => .handshakeData
  | .zeroRtt | .forwardSecure => .applicationData

structure QuicTransmissionInfo (F : Type*) where
  retransmittableFrames : List F := []
  sentTime : Int := 0
  bytesSent : Nat := 0
  encryptionLevel : EncryptionLevel := .initial
  inFlight : Bool := false
  state : SentPacketState := .outstanding
  hasCryptoHandshake : Bool := false
  firstSentAfterLoss : Option Nat := none
  largestAcked : Option Nat := none

structure SerializedPacket (F : Type*) where
  packetNumber : Nat
  encryptedLength : Nat
  encryptionLevel : EncryptionLevel
  hasCryptoHandshake : Bool := false
  largestAcked : Option Nat := none
  retransmittableFrames : List F := []

structure QuicUnackedPacketMap (F : Type*) where
  perspective : Perspective
  supportsMultiplePacketNumberSpaces : Bool
  largestSentPacket : Option Nat := none
  largestSentRetransmittablePackets : PacketNumberSpace → Option Nat := fun _ => none
  largestSentLargestAcked : Option Nat := none
  largestAcked : Option Nat := none
  unackedPackets : List (QuicTransmissionInfo F) := []
  leastUnacked : Nat := 1
  bytesInFlight : Nat := 0
  bytesInFlightPerPacketNumberSpace : PacketNumberSpace → Nat := fun _ => 0
  packetsInFlight : Nat := 0
  lastInflightPacketSentTime : Int := 0
  lastInflightPacketsSentTime : PacketNumberSpace → Int := fun _ => 0
  lastCryptoPacketSentTime : Int := 0
  bugs : Nat := 0

namespace QuicUnackedPacketMap

variable {F : Type*}

section
variable (m : QuicUnackedPacketMap F)

def getPacketNumberSpace (level : EncryptionLevel) : PacketNumberSpace :=
  if m.supportsMultiplePacketNumberSpaces then QuicUtils.getPacketNumberSpace level
  else
    match m.perspective with
    | .isClient => if level = .initial then .handshakeData else .applicationData
    | .isServer => if level = .forwardSecure then .applicationData else .handshakeData

def updateMax : Option Nat → Option Nat → Option Nat
  | old, none => old
  | none, some new => some new
  | some old, some new => some (max old new)

def neverSent : QuicTransmissionInfo F := { state := .neverSent }

def sentInfo (packet : SerializedPacket F) (sentTime : Int) (setInFlight measureRtt : Bool) :
    QuicTransmissionInfo F where
  encryptionLevel := packet.encryptionLevel
  sentTime := sentTime
  bytesSent := packet.encryptedLength
  hasCryptoHandshake := packet.hasCryptoHandshake
  largestAcked := packet.largestAcked
  state := if measureRtt then .outstanding else .notContributingRtt
  inFlight := setInFlight
  retransmittableFrames := packet.retransmittableFrames

def addSentPacket (packet : SerializedPacket F) (sentTime : Int) (setInFlight measureRtt : Bool) :
    QuicUnackedPacketMap F :=
  let padding := replicate (packet.packetNumber - (m.leastUnacked + m.unackedPackets.length)) neverSent
  let info := sentInfo packet sentTime setInFlight measureRtt
  let m := { m with
    largestSentLargestAcked := updateMax m.largestSentLargestAcked packet.largestAcked
    largestSentPacket := some packet.packetNumber
    unackedPackets := m.unackedPackets ++ padding ++ [info] }
  let m := if packet.hasCryptoHandshake then { m with lastCryptoPacketSentTime := sentTime } else m
  if setInFlight then
    let space := m.getPacketNumberSpace packet.encryptionLevel
    { m with
      bytesInFlight := m.bytesInFlight + packet.encryptedLength
      bytesInFlightPerPacketNumberSpace :=
        update m.bytesInFlightPerPacketNumberSpace space
          (m.bytesInFlightPerPacketNumberSpace space + packet.encryptedLength)
      packetsInFlight := m.packetsInFlight + 1
      largestSentRetransmittablePackets :=
        update m.largestSentRetransmittablePackets space (some packet.packetNumber)
      lastInflightPacketSentTime := sentTime
      lastInflightPacketsSentTime := update m.lastInflightPacketsSentTime space sentTime }
  else m

def isPacketUsefulForMeasuringRtt (packetNumber : Nat) (info : QuicTransmissionInfo F) : Bool :=
  QuicUtils.isAckable info.state && m.largestAcked.all (fun largest => largest < packetNumber) &&
    info.state != .notContributingRtt

def isPacketUsefulForCongestionControl (info : QuicTransmissionInfo F) : Bool := info.inFlight

def isPacketUsefulForRetransmittableData (info : QuicTransmissionInfo F) : Bool :=
  info.firstSentAfterLoss.any fun first => m.largestAcked.all fun largest => largest < first

def isPacketUseless (packetNumber : Nat) (info : QuicTransmissionInfo F) : Bool :=
  !m.isPacketUsefulForMeasuringRtt packetNumber info && !isPacketUsefulForCongestionControl info &&
    !m.isPacketUsefulForRetransmittableData info

def popUseless : Nat → List (QuicTransmissionInfo F) → Nat × List (QuicTransmissionInfo F)
  | least, [] => (least, [])
  | least, info :: rest => if m.isPacketUseless least info then popUseless (least + 1) rest else (least, info :: rest)

def removeObsoletePackets : QuicUnackedPacketMap F :=
  let (leastUnacked, unackedPackets) := m.popUseless m.leastUnacked m.unackedPackets
  { m with leastUnacked, unackedPackets }

/-- What `RemoveFromInFlight()` takes off the totals. The first two differences would wrap around. -/
def deduct (info : QuicTransmissionInfo F) : QuicUnackedPacketMap F :=
  let space := m.getPacketNumberSpace info.encryptionLevel
  let bytes := m.bytesInFlightPerPacketNumberSpace space
  let left := if bytes < info.bytesSent then 0 else bytes - info.bytesSent
  { m with
    bugs := m.bugs + (if m.bytesInFlight < info.bytesSent then 1 else 0) + (if m.packetsInFlight = 0 then 1 else 0) +
      (if bytes < info.bytesSent then 1 else 0)
    bytesInFlight := m.bytesInFlight - info.bytesSent
    packetsInFlight := m.packetsInFlight - 1
    bytesInFlightPerPacketNumberSpace := update m.bytesInFlightPerPacketNumberSpace space left
    lastInflightPacketsSentTime :=
      if left = 0 then update m.lastInflightPacketsSentTime space 0 else m.lastInflightPacketsSentTime }

def removeFromInFlight (packetNumber : Nat) : QuicUnackedPacketMap F :=
  match m.unackedPackets[packetNumber - m.leastUnacked]? with
  | some info =>
    if info.inFlight then
      { m.deduct info with
        unackedPackets := m.unackedPackets.set (packetNumber - m.leastUnacked) { info with inFlight := false } }
    else m
  | none => m

def modify (packetNumber : Nat) (f : QuicTransmissionInfo F → QuicTransmissionInfo F) : QuicUnackedPacketMap F :=
  { m with unackedPackets := m.unackedPackets.modify (packetNumber - m.leastUnacked) f }

def removeRetransmittability (packetNumber : Nat) : QuicUnackedPacketMap F :=
  m.modify packetNumber fun info => { info with retransmittableFrames := [], firstSentAfterLoss := none }

def increaseLargestAcked (largestAcked : Nat) : QuicUnackedPacketMap F := { m with largestAcked := some largestAcked }

end

structure Neutering (F : Type*) where
  map : QuicUnackedPacketMap F
  neuteredPackets : List Nat := []
  framesAcked : List F := []

def neuterAt (unneeded : QuicTransmissionInfo F → Bool) (r : Neutering F) (i : Nat) : Neutering F :=
  match r.map.unackedPackets[i]? with
  | some info =>
    if !info.retransmittableFrames.isEmpty && unneeded info then
      let packetNumber := r.map.leastUnacked + i
      { map := (r.map.removeFromInFlight packetNumber).modify packetNumber fun info => { info with state := .neutered }
        neuteredPackets := r.neuteredPackets ++ [packetNumber]
        framesAcked := r.framesAcked ++ info.retransmittableFrames }
    else r
  | none => r

section
variable (m : QuicUnackedPacketMap F)

def neuterPackets (unneeded : QuicTransmissionInfo F → Bool) : Neutering F :=
  (range m.unackedPackets.length).foldl (neuterAt unneeded) { map := m }

def neuterUnencryptedPackets : Neutering F :=
  m.neuterPackets fun info => info.encryptionLevel = .initial

def neuterHandshakePackets : Neutering F :=
  m.neuterPackets fun info => m.getPacketNumberSpace info.encryptionLevel = .handshakeData

/-! ## Runs -/

/-- The calls. `setState` is what the sent packet manager writes into an entry. -/
inductive Ev (F : Type*) where
  | addSentPacket (packet : SerializedPacket F) (sentTime : Int) (setInFlight measureRtt : Bool)
  | removeFromInFlight (packetNumber : Nat)
  | removeRetransmittability (packetNumber : Nat)
  | increaseLargestAcked (largestAcked : Nat)
  | neuterUnencryptedPackets
  | neuterHandshakePackets
  | removeObsoletePackets
  | setState (packetNumber : Nat) (state : SentPacketState) (firstSentAfterLoss : Option Nat)

def stored (packetNumber : Nat) : Bool :=
  m.leastUnacked ≤ packetNumber && packetNumber < m.leastUnacked + m.unackedPackets.length

/-- Packet numbers increase, and an entry is only asked for where there is one. -/
def step : Ev F → Option (QuicUnackedPacketMap F)
  | .addSentPacket packet sentTime setInFlight measureRtt =>
    if m.largestSentPacket.getD 0 < packet.packetNumber then some
      (m.addSentPacket packet sentTime setInFlight measureRtt) else none
  | .removeFromInFlight packetNumber => if m.stored packetNumber then some (m.removeFromInFlight packetNumber) else none
  | .removeRetransmittability packetNumber =>
    if m.stored packetNumber then some (m.removeRetransmittability packetNumber) else none
  | .increaseLargestAcked largestAcked => some (m.increaseLargestAcked largestAcked)
  | .neuterUnencryptedPackets => some m.neuterUnencryptedPackets.map
  | .neuterHandshakePackets => some m.neuterHandshakePackets.map
  | .removeObsoletePackets => some m.removeObsoletePackets
  | .setState packetNumber state firstSentAfterLoss =>
    if m.stored packetNumber then
      some (m.modify packetNumber fun info => { info with state := state, firstSentAfterLoss := firstSentAfterLoss })
    else none

end

/-! ## What a call leaves alone -/

structure Origin where
  sentTime : Int := 0
  bytesSent : Nat := 0
  encryptionLevel : EncryptionLevel := .initial
  hasCryptoHandshake : Bool := false
  largestAcked : Option Nat := none
deriving DecidableEq

def origin (info : QuicTransmissionInfo F) : Origin :=
  { sentTime := info.sentTime, bytesSent := info.bytesSent, encryptionLevel := info.encryptionLevel,
    hasCryptoHandshake := info.hasCryptoHandshake, largestAcked := info.largestAcked }

def Ev.sentAs (packetNumber : Nat) : Ev F → Option Origin
  | .addSentPacket packet sentTime setInFlight measureRtt =>
    if packet.packetNumber = packetNumber then some (origin (sentInfo packet sentTime setInFlight measureRtt)) else none
  | .removeFromInFlight _ | .removeRetransmittability _ | .increaseLargestAcked _ | .neuterUnencryptedPackets
  | .neuterHandshakePackets | .removeObsoletePackets | .setState _ _ _ => none

/-- The entries are those of `m`, but for marks; nothing comes into flight. -/
structure Marks (m m' : QuicUnackedPacketMap F) : Prop where
  perspective : m'.perspective = m.perspective
  multiple : m'.supportsMultiplePacketNumberSpaces = m.supportsMultiplePacketNumberSpaces
  leastUnacked : m'.leastUnacked = m.leastUnacked
  largestSentPacket : m'.largestSentPacket = m.largestSentPacket
  length : m'.unackedPackets.length = m.unackedPackets.length
  entry : ∀ (i : Nat) info', m'.unackedPackets[i]? = some info' → ∃ info, m.unackedPackets[i]? = some info ∧
    origin info' = origin info ∧ (info'.inFlight = true → info.inFlight = true)

variable {m m' m'' : QuicUnackedPacketMap F}

theorem Marks.refl (m : QuicUnackedPacketMap F) : Marks m m :=
  ⟨rfl, rfl, rfl, rfl, rfl, fun _ info h => ⟨info, h, rfl, id⟩⟩

theorem Marks.trans (h : Marks m m') (h' : Marks m' m'') : Marks m m'' := by
  refine ⟨h'.perspective.trans h.perspective, h'.multiple.trans h.multiple, h'.leastUnacked.trans h.leastUnacked,
    h'.largestSentPacket.trans h.largestSentPacket, h'.length.trans h.length, fun i info'' hi => ?_⟩
  obtain ⟨info', hi', ho', hf'⟩ := h'.entry i info'' hi
  obtain ⟨info, hi, ho, hf⟩ := h.entry i info' hi'
  exact ⟨info, hi, ho'.trans ho, hf ∘ hf'⟩

theorem marks_removeFromInFlight (m : QuicUnackedPacketMap F) (packetNumber : Nat) :
    Marks m (m.removeFromInFlight packetNumber) := by
  unfold removeFromInFlight
  split
  next info hinfo =>
    split
    · refine ⟨rfl, rfl, rfl, rfl, length_set, fun i info' hi => ?_⟩
      rw [getElem?_set] at hi
      split at hi
      next heq =>
        split at hi
        · cases hi
          exact ⟨info, heq ▸ hinfo, rfl, nofun⟩
        · cases hi
      · exact ⟨info', hi, rfl, id⟩
    · exact .refl m
  · exact .refl m

theorem inFlight_removeFromInFlight {packetNumber : Nat} {info : QuicTransmissionInfo F}
    (hi : (m.removeFromInFlight packetNumber).unackedPackets[packetNumber - m.leastUnacked]? = some info) :
    info.inFlight = false := by
  unfold removeFromInFlight at hi
  split at hi
  next info' hinfo =>
    split at hi
    · rw [List.getElem?_set_self (List.getElem?_eq_some_iff.1 hinfo).1] at hi
      cases hi
      rfl
    next hf =>
      rw [hinfo] at hi
      cases hi
      exact Bool.eq_false_iff.2 hf
  next hnone =>
    rw [hnone] at hi
    cases hi

structure Harmless (f : QuicTransmissionInfo F → QuicTransmissionInfo F) : Prop where
  origin : ∀ info, origin (f info) = origin info
  inFlight : ∀ info, (f info).inFlight = info.inFlight

theorem Harmless.marks {f : QuicTransmissionInfo F → QuicTransmissionInfo F} (hf : Harmless f)
    (m : QuicUnackedPacketMap F)
    (packetNumber : Nat) : Marks m (m.modify packetNumber f) := by
  refine ⟨rfl, rfl, rfl, rfl, length_modify _ _ _, fun i info' hi => ?_⟩
  unfold modify at hi
  rw [getElem?_modify] at hi
  obtain ⟨info, hinfo, he⟩ := map_eq_some_iff.1 hi
  refine ⟨info, hinfo, ?_⟩
  split at he
  · subst he
    exact ⟨hf.origin info, fun h => (hf.inFlight info).symm.trans h⟩
  · subst he
    exact ⟨rfl, id⟩

theorem harmless_neutered : Harmless fun info : QuicTransmissionInfo F => { info with state := .neutered } :=
  ⟨fun _ => rfl, fun _ => rfl⟩

/-- Every call but `AddSentPacket()` and `RemoveObsoletePackets()` is made of these. -/
inductive Touches (m : QuicUnackedPacketMap F) : QuicUnackedPacketMap F → Prop where
  | refl : Touches m m
  | removeFromInFlight {m' : QuicUnackedPacketMap F} (h : Touches m m') (packetNumber : Nat) :
      Touches m (m'.removeFromInFlight packetNumber)
  | modify {m' : QuicUnackedPacketMap F} {f : QuicTransmissionInfo F → QuicTransmissionInfo F} (h : Touches m m')
    (hf : Harmless f)
      (packetNumber : Nat) : Touches m (m'.modify packetNumber f)
  | increaseLargestAcked {m' : QuicUnackedPacketMap F} (h : Touches m m') (n : Nat) :
    Touches m (m'.increaseLargestAcked n)

theorem Touches.marks (h : Touches m m') : Marks m m' := by
  induction h with
  | refl => exact .refl m
  | removeFromInFlight _ packetNumber ih => exact ih.trans (marks_removeFromInFlight _ packetNumber)
  | modify _ hf packetNumber ih => exact ih.trans (hf.marks _ packetNumber)
  | increaseLargestAcked _ n ih => exact ih.trans ⟨rfl, rfl, rfl, rfl, rfl, fun _ info hi => ⟨info, hi, rfl, id⟩⟩

theorem touches_neuterPackets (m : QuicUnackedPacketMap F) (unneeded : QuicTransmissionInfo F → Bool) :
    Touches m (m.neuterPackets unneeded).map := by
  have hrun : ∀ (is : List Nat) (r : Neutering F), Touches m r.map →
    Touches m (is.foldl (neuterAt unneeded) r).map := by
    intro is
    induction is with
    | nil => exact fun _ h => h
    | cons i is ih =>
      intro r h
      apply ih
      unfold neuterAt
      split
      · split
        · exact (h.removeFromInFlight _).modify harmless_neutered _
        · exact h
      · exact h
  exact hrun _ _ .refl

def bytesIn (m : QuicUnackedPacketMap F) (space : PacketNumberSpace) (info : QuicTransmissionInfo F) : Nat :=
  if m.getPacketNumberSpace info.encryptionLevel = space then info.bytesSent else 0

/-- What `AddSentPacket()` does with the entry of packet `p`. -/
structure Sends (m : QuicUnackedPacketMap F) (p : Nat) (info : QuicTransmissionInfo F) (m' : QuicUnackedPacketMap F) :
    Prop where
  entries : m'.unackedPackets =
    m.unackedPackets ++ replicate (p - (m.leastUnacked + m.unackedPackets.length)) neverSent ++ [info]
  leastUnacked : m'.leastUnacked = m.leastUnacked
  largestSentPacket : m'.largestSentPacket = some p
  space : m'.getPacketNumberSpace = m.getPacketNumberSpace
  bytes : m'.bytesInFlight = m.bytesInFlight + if info.inFlight then info.bytesSent else 0
  packets : m'.packetsInFlight = m.packetsInFlight + if info.inFlight then 1 else 0
  spaces : ∀ space, m'.bytesInFlightPerPacketNumberSpace space =
    m.bytesInFlightPerPacketNumberSpace space + if info.inFlight then m.bytesIn space info else 0
  bugs : m'.bugs = m.bugs

theorem sends_addSentPacket (m : QuicUnackedPacketMap F) (packet : SerializedPacket F) (sentTime : Int)
    (setInFlight measureRtt : Bool) : Sends m packet.packetNumber (sentInfo packet sentTime setInFlight measureRtt)
      (m.addSentPacket packet sentTime setInFlight measureRtt) := by
  unfold addSentPacket
  cases setInFlight with
  | false => cases packet.hasCryptoHandshake <;> exact ⟨rfl, rfl, rfl, rfl, rfl, rfl, fun _ => rfl, rfl⟩
  | true =>
    have hspace : ∀ space own : PacketNumberSpace, own = m.getPacketNumberSpace packet.encryptionLevel →
        update m.bytesInFlightPerPacketNumberSpace own
          (m.bytesInFlightPerPacketNumberSpace own + packet.encryptedLength)
            space =
          m.bytesInFlightPerPacketNumberSpace space + m.bytesIn space (sentInfo packet sentTime true measureRtt) := by
      rintro space own rfl
      by_cases hsp : space = m.getPacketNumberSpace packet.encryptionLevel
      · subst hsp
        have hown : m.bytesIn (m.getPacketNumberSpace packet.encryptionLevel)
          (sentInfo packet sentTime true measureRtt) =
          packet.encryptedLength := if_pos rfl
        rw [update_self, hown]
      · rw [update_of_ne hsp, bytesIn, if_neg fun he => hsp he.symm, add_zero]
    cases packet.hasCryptoHandshake <;> exact ⟨rfl, rfl, rfl, rfl, rfl, rfl, fun space => hspace space _ rfl, rfl⟩

variable {e : Ev F} {p : Nat} {info : QuicTransmissionInfo F}

theorem step_cases (hs : m.step e = some m') :
    (∃ p info, (∀ q, e.sentAs q = if p = q then some (origin info) else none) ∧ m.largestSentPacket.getD 0 < p ∧
      Sends m p info m') ∨
    (e = .removeObsoletePackets ∧ m' = m.removeObsoletePackets) ∨ (∀ p, e.sentAs p = none) ∧ Touches m m' := by
  cases e with
  | addSentPacket packet sentTime setInFlight measureRtt =>
    obtain ⟨hg, ⟨⟩⟩ := ite_none_right_eq_some.1 hs
    exact .inl ⟨packet.packetNumber, _, fun _ => rfl, hg, m.sends_addSentPacket packet sentTime setInFlight measureRtt⟩
  | removeObsoletePackets => exact .inr (.inl ⟨rfl, (some.inj hs).symm⟩)
  | removeFromInFlight packetNumber =>
    obtain ⟨-, ⟨⟩⟩ := ite_none_right_eq_some.1 hs
    exact .inr (.inr ⟨fun _ => rfl, Touches.refl.removeFromInFlight packetNumber⟩)
  | removeRetransmittability packetNumber | setState packetNumber =>
    obtain ⟨-, ⟨⟩⟩ := ite_none_right_eq_some.1 hs
    refine .inr (.inr ⟨fun _ => rfl, .modify .refl ?_ packetNumber⟩)
    exact ⟨fun _ => rfl, fun _ => rfl⟩
  | increaseLargestAcked largestAcked =>
    cases hs
    exact .inr (.inr ⟨fun _ => rfl, Touches.refl.increaseLargestAcked largestAcked⟩)
  | neuterUnencryptedPackets | neuterHandshakePackets =>
    cases hs
    exact .inr (.inr ⟨fun _ => rfl, touches_neuterPackets m _⟩)

/-! ## Totals -/

def inFlightTotal (w : QuicTransmissionInfo F → Nat) (l : List (QuicTransmissionInfo F)) : Nat :=
  ((l.filter fun info => info.inFlight).map w).sum

section
variable {w : QuicTransmissionInfo F → Nat} {l : List (QuicTransmissionInfo F)}

theorem inFlightTotal_cons (info : QuicTransmissionInfo F) :
    inFlightTotal w (info :: l) = (if info.inFlight then w info else 0) + inFlightTotal w l := by
  unfold inFlightTotal
  rw [filter_cons]
  split
  · rw [map_cons, sum_cons]
  · rw [zero_add]

theorem inFlightTotal_append (l' : List (QuicTransmissionInfo F)) :
    inFlightTotal w (l ++ l') = inFlightTotal w l + inFlightTotal w l' := by
  rw [inFlightTotal, filter_append, map_append, sum_append]
  rfl

theorem inFlightTotal_of_none (h : ∀ info ∈ l, info.inFlight = false) : inFlightTotal w l = 0 := by
  have hnil : l.filter (fun info => info.inFlight) = [] := by
    rw [filter_eq_nil_iff]
    intro info hi
    rw [h info hi]
    exact Bool.false_ne_true
  rw [inFlightTotal, hnil]
  rfl

theorem inFlightTotal_set (info' : QuicTransmissionInfo F) {i : Nat} {info} (hi : l[i]? = some info) :
    inFlightTotal w (l.set i info') + (if info.inFlight then w info else 0) =
      inFlightTotal w l + if info'.inFlight then w info' else 0 := by
  induction l generalizing i with
  | nil => cases hi
  | cons x l ih =>
    cases i with
    | zero =>
      cases hi
      rw [set_cons_zero, inFlightTotal_cons, inFlightTotal_cons]
      omega
    | succ i =>
      rw [getElem?_cons_succ] at hi
      have := ih hi
      rw [set_cons_succ, inFlightTotal_cons, inFlightTotal_cons]
      omega

theorem inFlightTotal_modify {f : QuicTransmissionInfo F → QuicTransmissionInfo F}
    (hf : ∀ info, (f info).inFlight = info.inFlight)
    (hw : ∀ info, w (f info) = w info) (i : Nat) : inFlightTotal w (l.modify i f) = inFlightTotal w l := by
  induction l generalizing i with
  | nil => cases i <;> rfl
  | cons x l ih =>
    cases i with
    | zero => rw [modify_zero_cons, inFlightTotal_cons, inFlightTotal_cons, hf, hw]
    | succ i => rw [modify_succ_cons, inFlightTotal_cons, inFlightTotal_cons, ih]

end

structure Accounted (m : QuicUnackedPacketMap F) : Prop where
  bytes : m.bytesInFlight = inFlightTotal (fun info => info.bytesSent) m.unackedPackets
  packets : m.packetsInFlight = inFlightTotal (fun _ => 1) m.unackedPackets
  spaces : ∀ space, m.bytesInFlightPerPacketNumberSpace space = inFlightTotal (m.bytesIn space) m.unackedPackets
  bugs : m.bugs = 0

theorem accounted_fresh (perspective : Perspective) (multiple : Bool) :
    Accounted ({ perspective := perspective, supportsMultiplePacketNumberSpaces := multiple } :
      QuicUnackedPacketMap F) :=
  ⟨rfl, rfl, fun _ => rfl, rfl⟩

theorem Accounted.modify {f : QuicTransmissionInfo F → QuicTransmissionInfo F} (h : Accounted m) (hf : Harmless f)
    (packetNumber : Nat) :
    Accounted (m.modify packetNumber f) := by
  have hbytes : ∀ info, (f info).bytesSent = info.bytesSent := fun info => congrArg Origin.bytesSent (hf.origin info)
  have hlevel : ∀ info, (f info).encryptionLevel = info.encryptionLevel :=
    fun info => congrArg Origin.encryptionLevel (hf.origin info)
  refine ⟨?_, ?_, fun space => ?_, h.bugs⟩
  · exact h.bytes.trans (inFlightTotal_modify hf.inFlight hbytes _).symm
  · exact h.packets.trans (inFlightTotal_modify hf.inFlight (fun _ => rfl) _).symm
  · have hin : ∀ info, m.bytesIn space (f info) = m.bytesIn space info := by
      intro info
      rw [bytesIn, hlevel, hbytes]
      rfl
    exact (h.spaces space).trans (inFlightTotal_modify hf.inFlight hin _).symm

theorem Accounted.removeFromInFlight (h : Accounted m) (packetNumber : Nat) :
    Accounted (m.removeFromInFlight packetNumber) := by
  unfold QuicUnackedPacketMap.removeFromInFlight
  split
  next info hinfo =>
    split
    next hflight =>
      -- The entry leaves each total; the differences below are then exact.
      have hset : ∀ w : QuicTransmissionInfo F → Nat,
          inFlightTotal w (m.unackedPackets.set (packetNumber - m.leastUnacked) { info with inFlight := false }) +
            w info =
            inFlightTotal w m.unackedPackets := by
        intro w
        have := inFlightTotal_set (w := w) { info with inFlight := false } hinfo
        rwa [if_pos hflight, if_neg Bool.false_ne_true, add_zero] at this
      have hb := hset fun info => info.bytesSent
      have hp := hset fun _ => 1
      have hs := hset (m.bytesIn (m.getPacketNumberSpace info.encryptionLevel))
      have hown : m.bytesIn (m.getPacketNumberSpace info.encryptionLevel) info = info.bytesSent := if_pos rfl
      rw [← h.bytes] at hb
      rw [← h.packets] at hp
      rw [← h.spaces, hown] at hs
      unfold deduct
      refine ⟨?_, ?_, fun space => ?_, ?_⟩
      · dsimp only
        omega
      · dsimp only
        omega
      · dsimp only
        by_cases hsp : space = m.getPacketNumberSpace info.encryptionLevel
        · subst hsp
          rw [update_self, if_neg (by omega)]
          exact (Nat.eq_sub_of_add_eq hs).symm
        · have hother : m.bytesIn space info = 0 := if_neg fun he => hsp he.symm
          have := hset (m.bytesIn space)
          rw [hother, add_zero] at this
          rw [update_of_ne hsp, h.spaces]
          exact this.symm
      · dsimp only
        rw [h.bugs, if_neg (by omega), if_neg (by omega), if_neg (by omega)]
    · exact h
  · exact h

theorem Accounted.sends (h : Accounted m) (hs : Sends m p info m') : Accounted m' := by
  have hadd : ∀ w : QuicTransmissionInfo F → Nat, inFlightTotal w m'.unackedPackets =
      inFlightTotal w m.unackedPackets + if info.inFlight then w info else 0 := by
    intro w
    have hpad : ∀ n, inFlightTotal w (replicate n neverSent) = 0 := fun n =>
      inFlightTotal_of_none fun info hi => by rw [eq_of_mem_replicate hi]; rfl
    rw [hs.entries, inFlightTotal_append, inFlightTotal_append, hpad, inFlightTotal_cons]
    rfl
  refine ⟨?_, ?_, fun space => ?_, hs.bugs.trans h.bugs⟩
  · rw [hs.bytes, hadd, h.bytes]
  · rw [hs.packets, hadd, h.packets]
  · have hin : m'.bytesIn space = m.bytesIn space := by
      funext info
      rw [bytesIn, hs.space]
      rfl
    rw [hs.spaces, hin, hadd, h.spaces]

theorem popUseless_spec (m : QuicUnackedPacketMap F) (least : Nat) (l : List (QuicTransmissionInfo F)) :
    ∃ k, k ≤ l.length ∧ m.popUseless least l = (least + k, l.drop k) ∧ ∀ info ∈ l.take k, info.inFlight = false := by
  induction l generalizing least with
  | nil => exact ⟨0, le_refl 0, rfl, nofun⟩
  | cons info rest ih =>
    rw [popUseless]
    split
    next huseless =>
      obtain ⟨k, hk, he, hnone⟩ := ih (least + 1)
      refine ⟨k + 1, Nat.succ_le_succ hk, ?_, ?_⟩
      · rw [he, drop_succ_cons, add_right_comm, add_assoc]
      · rw [take_succ_cons]
        intro x hx
        rcases mem_cons.1 hx with rfl | hx
        · simp only [isPacketUseless, isPacketUsefulForCongestionControl, Bool.and_eq_true,
            Bool.not_eq_true'] at huseless
          exact huseless.1.2
        · exact hnone x hx
    · exact ⟨0, Nat.zero_le _, rfl, nofun⟩

theorem Accounted.removeObsoletePackets (h : Accounted m) : Accounted m.removeObsoletePackets := by
  obtain ⟨k, -, he, hnone⟩ := m.popUseless_spec m.leastUnacked m.unackedPackets
  have hdrop : ∀ w : QuicTransmissionInfo F → Nat,
      inFlightTotal w m.unackedPackets = inFlightTotal w m.removeObsoletePackets.unackedPackets := by
    intro w
    unfold QuicUnackedPacketMap.removeObsoletePackets
    rw [he]
    conv => lhs; rw [← take_append_drop k m.unackedPackets]
    rw [inFlightTotal_append, inFlightTotal_of_none hnone, zero_add]
  exact ⟨h.bytes.trans (hdrop _), h.packets.trans (hdrop _), fun space => (h.spaces space).trans (hdrop _), h.bugs⟩

theorem Accounted.touches (h : Accounted m) (ht : Touches m m') : Accounted m' := by
  induction ht with
  | refl => exact h
  | removeFromInFlight _ packetNumber ih => exact ih.removeFromInFlight packetNumber
  | modify _ hf packetNumber ih => exact ih.modify hf packetNumber
  | increaseLargestAcked _ _ ih => exact ⟨ih.bytes, ih.packets, ih.spaces, ih.bugs⟩

theorem Accounted.step (h : Accounted m) (hs : step m e = some m') : Accounted m' := by
  rcases step_cases hs with ⟨p, info, -, -, hs⟩ | ⟨-, rfl⟩ | ⟨-, ht⟩
  · exact h.sends hs
  · exact h.removeObsoletePackets
  · exact h.touches ht

/-! ## Positions -/

def sentAs (es : List (Ev F)) (packetNumber : Nat) : Option Origin := es.findSome? (Ev.sentAs packetNumber)

def Dense (m : QuicUnackedPacketMap F) : Prop :=
  m.leastUnacked + m.unackedPackets.length = m.largestSentPacket.getD 0 + 1

theorem Dense.marks (h : Dense m) (hm : Marks m m') : Dense m' := by
  rw [Dense, hm.leastUnacked, hm.length, hm.largestSentPacket]
  exact h

theorem Dense.removeObsoletePackets (h : Dense m) : Dense m.removeObsoletePackets := by
  obtain ⟨k, hk, he, -⟩ := m.popUseless_spec m.leastUnacked m.unackedPackets
  rw [Dense] at h
  rw [Dense, QuicUnackedPacketMap.removeObsoletePackets, he]
  dsimp only
  rw [length_drop]
  omega

theorem Dense.sends (h : Dense m) (hp : m.largestSentPacket.getD 0 < p) (hs : Sends m p info m') : Dense m' := by
  rw [Dense] at h
  rw [Dense, hs.leastUnacked, hs.entries, hs.largestSentPacket, length_append, length_append, length_replicate,
    length_singleton, getD_some]
  omega

theorem Dense.step (h : Dense m) (hs : step m e = some m') : Dense m' := by
  rcases step_cases hs with ⟨p, info, -, hp, hs⟩ | ⟨-, rfl⟩ | ⟨-, ht⟩
  · exact h.sends hp hs
  · exact h.removeObsoletePackets
  · exact h.marks ht.marks

structure Numbered (es : List (Ev F)) (m : QuicUnackedPacketMap F) : Prop where
  dense : Dense m
  entry : ∀ (i : Nat) info, m.unackedPackets[i]? = some info → origin info = (sentAs es (m.leastUnacked + i)).getD {}
  sent : ∀ p, (sentAs es p).isSome → p < m.leastUnacked + m.unackedPackets.length

variable {es : List (Ev F)}

theorem sentAs_append_of_none (he : e.sentAs p = none) : sentAs (es ++ [e]) p = sentAs es p := by
  unfold sentAs
  rw [findSome?_append, findSome?_singleton, he, or_none]

theorem Numbered.marks {e : Ev F} (h : Numbered es m) (hm : Marks m m') (he : ∀ p, e.sentAs p = none) :
    Numbered (es ++ [e]) m' := by
  refine ⟨h.dense.marks hm, fun i info' hi => ?_, fun p hp => ?_⟩
  · obtain ⟨info, hinfo, ho, -⟩ := hm.entry i info' hi
    rw [ho, hm.leastUnacked, sentAs_append_of_none (he _)]
    exact h.entry i info hinfo
  · rw [sentAs_append_of_none (he p)] at hp
    rw [hm.leastUnacked, hm.length]
    exact h.sent p hp

theorem Numbered.removeObsoletePackets (h : Numbered es m) :
    Numbered (es ++ [.removeObsoletePackets]) m.removeObsoletePackets := by
  obtain ⟨k, hk, he, -⟩ := m.popUseless_spec m.leastUnacked m.unackedPackets
  have hnew : ∀ p, sentAs (es ++ [.removeObsoletePackets]) p = sentAs es p := fun p => sentAs_append_of_none rfl
  refine ⟨h.dense.removeObsoletePackets, fun i info hi => ?_, fun p hp => ?_⟩
  all_goals rw [QuicUnackedPacketMap.removeObsoletePackets, he] at *
  · rw [getElem?_drop] at hi
    rw [hnew, add_assoc]
    exact h.entry (k + i) info hi
  · rw [hnew] at hp
    have := h.sent p hp
    dsimp only
    rw [length_drop]
    omega

theorem Numbered.sends (h : Numbered es m) (he : ∀ q, e.sentAs q = if p = q then some (origin info) else none)
    (hp : m.largestSentPacket.getD 0 < p) (hs : Sends m p info m') : Numbered (es ++ [e]) m' := by
  have hdense := h.dense
  rw [Dense] at hdense
  have hother : ∀ q, p ≠ q → sentAs (es ++ [e]) q = sentAs es q := fun q hne =>
    sentAs_append_of_none ((he q).trans (if_neg hne))
  have hfresh : ∀ q, m.leastUnacked + m.unackedPackets.length ≤ q → sentAs es q = none := by
    intro q hle
    rw [← not_isSome_iff_eq_none]
    intro hq
    have := h.sent q hq
    omega
  refine ⟨h.dense.sends hp hs, fun i info' hi => ?_, fun q hq => ?_⟩
  · rw [hs.leastUnacked]
    rw [hs.entries, append_assoc, getElem?_append] at hi
    split at hi
    next hlt =>
      rw [hother _ (by omega)]
      exact h.entry i info' hi
    next hge =>
      -- A number that is skipped, or the one that was sent.
      rw [getElem?_append, length_replicate] at hi
      split at hi
      next hlt =>
        rw [getElem?_replicate, if_pos hlt] at hi
        cases hi
        rw [hother _ (by omega), hfresh _ (by omega)]
        rfl
      next hge' =>
        have hzero : i - m.unackedPackets.length - (p - (m.leastUnacked + m.unackedPackets.length)) = 0 := by
          by_contra hne
          obtain ⟨n, hn⟩ := Nat.exists_eq_succ_of_ne_zero hne
          rw [hn] at hi
          cases hi
        rw [hzero] at hi
        cases hi
        have hlast : sentAs (es ++ [e]) (m.leastUnacked + i) = some (origin info) := by
          have hold := hfresh (m.leastUnacked + i) (by omega)
          unfold sentAs at hold ⊢
          rw [findSome?_append, hold, findSome?_singleton, he, if_pos (by omega)]
          rfl
        rw [hlast]
        rfl
  · rw [hs.leastUnacked, hs.entries, length_append, length_append, length_replicate, length_singleton]
    by_cases hne : p = q
    · omega
    · rw [hother q hne] at hq
      have := h.sent q hq
      omega

theorem Numbered.step (h : Numbered es m) (hs : step m e = some m') : Numbered (es ++ [e]) m' := by
  rcases step_cases hs with ⟨p, info, he, hp, hs⟩ | ⟨rfl, rfl⟩ | ⟨he, ht⟩
  · exact h.sends he hp hs
  · exact h.removeObsoletePackets
  · exact h.marks ht.marks he

theorem numbered_fresh (perspective : Perspective) (multiple : Bool) :
    Numbered [] ({ perspective := perspective, supportsMultiplePacketNumberSpaces := multiple } :
      QuicUnackedPacketMap F) :=
  ⟨rfl, nofun, nofun⟩

/-- **In-flight accounting.** In every state that calls can lead to, the totals are the sums over the entries in
flight, and `RemoveObsoletePackets()` drops no packet in flight. -/
theorem accounting_exact {perspective : Perspective} {multiple : Bool}
    (hr : Lts.run QuicUnackedPacketMap.step
      { perspective := perspective, supportsMultiplePacketNumberSpaces := multiple } es = some m) :
    Accounted m ∧
    (∃ k, m.removeObsoletePackets.leastUnacked = m.leastUnacked + k ∧
      m.removeObsoletePackets.unackedPackets = m.unackedPackets.drop k ∧
      ∀ info ∈ m.unackedPackets.take k, info.inFlight = false) ∧
    m.leastUnacked + m.unackedPackets.length = m.largestSentPacket.getD 0 + 1 ∧
    (∀ (i : Nat) info, m.unackedPackets[i]? = some info → origin info = (sentAs es (m.leastUnacked + i)).getD {}) ∧
    ∀ p o, sentAs es p = some o → m.leastUnacked ≤ p →
      ∃ info, m.unackedPackets[p - m.leastUnacked]? = some info ∧ origin info = o := by
  have ha : Accounted m := Lts.run_inv (fun _ _ _ h hs => h.step hs) (accounted_fresh perspective multiple) hr
  have hn : Numbered es m := Lts.run_hist (fun _ _ _ _ h hs => h.step hs) (numbered_fresh perspective multiple) hr
  refine ⟨ha, ?_, hn.dense, hn.entry, fun p o hp hle => ?_⟩
  · obtain ⟨k, -, he, hnone⟩ := m.popUseless_spec m.leastUnacked m.unackedPackets
    refine ⟨k, ?_, ?_, hnone⟩ <;> rw [QuicUnackedPacketMap.removeObsoletePackets, he]
  · have hlt := hn.sent p (by rw [hp]; rfl)
    have hi : p - m.leastUnacked < m.unackedPackets.length := by omega
    refine ⟨m.unackedPackets[p - m.leastUnacked], getElem?_eq_getElem hi, ?_⟩
    have := hn.entry _ _ (getElem?_eq_getElem hi)
    rwa [Nat.add_sub_cancel' hle, hp] at this

def handshakeDone : List (Ev Nat) :=
  [.addSentPacket
    { packetNumber := 1, encryptedLength := 1200, encryptionLevel := .initial, retransmittableFrames := [7] } 10
      true true,
   .addSentPacket { packetNumber := 4, encryptedLength := 300, encryptionLevel := .handshake } 20 true true,
   .addSentPacket { packetNumber := 5, encryptedLength := 900, encryptionLevel := .forwardSecure } 30 true true,
   .neuterUnencryptedPackets, .increaseLargestAcked 1, .removeObsoletePackets]

theorem accounting_exact_handshakeDone :
    ∃ m, Lts.run QuicUnackedPacketMap.step
      { perspective := .isClient, supportsMultiplePacketNumberSpaces := true } handshakeDone = some m ∧
      m.leastUnacked = 4 ∧ m.bytesInFlight = 1200 ∧
      inFlightTotal (fun info => info.bytesSent) m.unackedPackets = 1200 ∧
      ∃ info, m.unackedPackets[5 - m.leastUnacked]? = some info ∧
        origin info = { sentTime := 30, bytesSent := 900, encryptionLevel := .forwardSecure } := by
  have hr : Lts.run QuicUnackedPacketMap.step
    { perspective := .isClient, supportsMultiplePacketNumberSpaces := true } handshakeDone =
    some _ := rfl
  obtain ⟨ha, -, -, -, hsent⟩ := accounting_exact hr
  exact ⟨_, hr, rfl, rfl, ha.bytes.symm, hsent 5 _ rfl (by decide)⟩

end QuicUnackedPacketMap

end Quictun
