import Quictun.AckFrameCodec

/-!
# ACK frames that are truncated

`GetSerializedFrameLength()` lets an ACK frame begin a packet that has no room for all its ranges,
if `GetMinAckFrameSize()` bytes are free. That size is computed with a count of one byte, but the
encoder first writes the count of all ranges and can replace it only by one of the same length.
-/

namespace Quictun

open QuicIntervalSet List

namespace QuicFramer

open QuicheDataWriter

def truncatedAckFrameSize (e : Nat) (f : QuicAckFrame) (k : Nat) : Nat :=
  match f.packets.reverse with
  | [] => 0
  | first :: rest => ackHeaderSize e f first rest.length + ackBlocksSize first.min (rest.take k)

/-- What must fit: the highest range alone, or 65 ranges if their count takes two bytes. -/
def requiredAckFrameSize (e : Nat) (f : QuicAckFrame) : Nat :=
  truncatedAckFrameSize e f (if f.packets.length ≤ 64 then 0 else 64)

variable {n : Nat}

theorem getVarInt62Len_of_le (h : n < 255) : getVarInt62Len n = if n < 64 then 1 else 2 := by
  revert n
  decide +kernel

variable {e : Nat} {f : QuicAckFrame} {first : QuicInterval Nat} {rest : List (QuicInterval Nat)}
  {w w' : QuicheDataWriter}

theorem length_ackBlockBytes : ∀ {rest : List (QuicInterval Nat)} {p : Nat}, Below p rest → p < 2 ^ 62 →
    (ackBlockBytes p rest).length = ackBlocksSize p rest
  | [], _, _, _ => rfl
  | i :: rest, p, hb, hp => by
    obtain ⟨hi, hip, hrest⟩ := hb
    have ih := length_ackBlockBytes hrest (by omega)
    rw [ackBlockBytes, ackBlocksSize, List.length_append, List.length_append, ih, length_varInt62 (by omega),
      length_varInt62 (by omega), QuicInterval.length_eq hi]

/-- With at most 255 ranges a frame is written exactly if the required size is free. -/
theorem append_iff_required (he : f.Encodable e) (hr : f.Ranges first rest) (hmany : rest.length < 255) :
    (∃ w', appendIetfAckFrameAndTypeByte e f w = .ok w') ↔ requiredAckFrameSize e f ≤ w.remaining := by
  have hlength := hr.length
  obtain ⟨hne, hmax, -⟩ := hr.bounds he
  have hblocks : ∀ k, truncatedAckFrameSize e f k =
      ackHeaderSize e f first rest.length + (ackBlockBytes first.min (rest.take k)).length := by
    intro k
    rw [truncatedAckFrameSize, hr.reverse, length_ackBlockBytes (hr.below.take k) (by omega)]
  rw [requiredAckFrameSize, hblocks, hlength]
  by_cases hroom : ackHeaderSize e f first rest.length ≤ w.remaining
  · obtain ⟨k, hk, hfit, hok, hbad⟩ := append_spec he hr hroom
    have hsuccess : (∃ w', appendIetfAckFrameAndTypeByte e f w = .ok w') ↔
      getVarInt62Len k = getVarInt62Len rest.length := by
      constructor
      · rintro ⟨w', h⟩
        by_contra hlen
        exact hbad hlen w' h
      · intro hlen
        obtain ⟨w', h, -⟩ := hok hlen
        exact ⟨w', h⟩
    rw [hsuccess, getVarInt62Len_of_le (by omega), getVarInt62Len_of_le hmany]
    by_cases hfew : rest.length < 64
    · rw [if_pos hfew, if_pos (by omega), if_pos (by omega)]
      simpa [ackBlockBytes] using hroom
    · rw [if_neg hfew, if_neg (by omega : ¬ rest.length + 1 ≤ 64), hfit 64 (by omega)]
      split <;> omega
  · constructor
    · rintro ⟨w', h⟩
      exact absurd h (append_ne_ok he hr (not_le.1 hroom) w')
    · intro h
      omega

theorem getMinAckFrameSize_eq (hr : f.Ranges first rest) : getMinAckFrameSize e f =
    1 + getVarInt62Len f.largestAcked + getVarInt62Len (f.ackDelayTime >>> e) + getVarInt62Len 0 +
      getVarInt62Len (first.max - first.min - 1) + ackEcnCountSize f := by
  have hlast : f.packets.getLast? = some first := by rw [← head?_reverse, hr.reverse, head?_cons]
  rw [getMinAckFrameSize, hlast, ← QuicInterval.length_eq hr.nonempty]

theorem getIetfAckFrameSize_eq (hr : f.Ranges first rest) : getIetfAckFrameSize e f =
    1 + getVarInt62Len f.largestAcked + getVarInt62Len (f.ackDelayTime >>> e) + getVarInt62Len rest.length +
      getVarInt62Len (first.max - first.min - 1) + ackBlocksSize first.min rest + ackEcnCountSize f := by
  rw [getIetfAckFrameSize, hr.reverse]
  dsimp only
  rw [if_neg hr.not_ne_largest, ← QuicInterval.length_eq hr.nonempty]

section
variable (hr : f.Ranges first rest) (hfew : f.packets.length ≤ 64)
include hr hfew

theorem getVarInt62Len_count : getVarInt62Len rest.length = getVarInt62Len 0 := by
  have hlength := hr.length
  rw [getVarInt62Len_of_le (by omega), if_pos (by omega)]
  rfl

/-- The size estimate is exact for a finite delay and a count of one byte. -/
theorem required_eq_min (hfinite : f.ackDelayTime ≠ kInfiniteTimeUs) :
    requiredAckFrameSize e f = getMinAckFrameSize e f := by
  rw [requiredAckFrameSize, if_pos hfew, truncatedAckFrameSize, hr.reverse, getMinAckFrameSize_eq hr]
  dsimp only
  rw [take_zero, ackBlocksSize, ackHeaderSize, getVarInt62Len_count hr hfew, ackDelayTimeUs, if_neg hfinite, add_zero]

theorem min_le_of_accepted {n : Nat} (haccept : getSerializedFrameLength e f n true ≠ 0) :
    getMinAckFrameSize e f ≤ n := by
  have hcount := getVarInt62Len_count hr hfew
  have hmin : getMinAckFrameSize e f ≤ getIetfAckFrameSize e f := by
    rw [getMinAckFrameSize_eq hr, getIetfAckFrameSize_eq hr]
    omega
  by_contra hlt
  rw [getSerializedFrameLength, if_neg (by omega), if_neg (by decide), if_neg hlt] at haccept
  exact haccept rfl

end

def alternatePackets (n : Nat) : QuicIntervalSet Nat := (List.range n).map fun i => ⟨2 * i + 1, 2 * i + 2⟩

theorem alternatePackets_canonical (n : Nat) : Canonical (alternatePackets n) := by
  constructor
  · intro i hi
    obtain ⟨j, -, rfl⟩ := mem_map.1 hi
    dsimp only
    omega
  · refine pairwise_map.2 (List.Pairwise.imp ?_ pairwise_lt_range)
    intro i j hij
    dsimp only
    omega

def alternateAckFrame (n : Nat) : QuicAckFrame :=
  { largestAcked := 2 * n + 1, ackDelayTime := 0, packets := alternatePackets (n + 1) }

theorem alternateAckFrame_wellFormed (hn : n < 2 ^ 32) : (alternateAckFrame n).WellFormed := by
  refine ⟨alternatePackets_canonical _, ?_, ?_, ?_, ?_, by simp [alternateAckFrame], by simp [alternateAckFrame]⟩
  · simp [alternateAckFrame, alternatePackets]
  · intro i hi
    obtain ⟨j, -, rfl⟩ := mem_map.1 hi
    dsimp only
    omega
  · intro i hi
    rw [alternateAckFrame, alternatePackets, range_succ, map_append, map_singleton, getLast?_concat] at hi
    cases hi
    rfl
  · dsimp only [alternateAckFrame]
    omega

theorem alternateAckFrame_encodable (hn : n < 2 ^ 32) : (alternateAckFrame n).Encodable 3 := by
  refine ⟨?_, by simp [ackDelayTimeUs, alternateAckFrame, kInfiniteTimeUs], by simp [alternateAckFrame]⟩
  dsimp only [alternateAckFrame]
  omega

/-- 65 ranges in 40 free bytes: the frame is let in, and the encoder gives up. -/
theorem truncation_fails_sixtyFive :
    (alternateAckFrame 64).WellFormed ∧ (alternateAckFrame 64).Encodable 3 ∧
      (alternateAckFrame 64).packets.length = 65 ∧
      getMinAckFrameSize 3 (alternateAckFrame 64) = 6 ∧ getSerializedFrameLength 3 (alternateAckFrame 64) 40 true = 40 ∧
      appendIetfAckFrameAndTypeByte 3 (alternateAckFrame 64) (fresh 40) = .error "ACK frame truncation fails" :=
  ⟨alternateAckFrame_wellFormed (by decide),
    alternateAckFrame_encodable (by decide), by decide +kernel, by decide +kernel,
    by decide +kernel, by rfl⟩

/-- **An accepted ACK frame can be written** exactly if the required size is free, which it is for at most 64 ranges
and a finite delay. -/
theorem accepted_ack_written (hf : f.WellFormed) (he : f.Encodable e) (hmany : f.packets.length ≤ 255)
    (haccept : getSerializedFrameLength e f w.remaining true ≠ 0) :
    ((∃ w', appendIetfAckFrameAndTypeByte e f w = .ok w' ∧ w'.buffer.length ≤ w.buffer.length + w.remaining) ↔
      requiredAckFrameSize e f ≤ w.remaining) ∧
    (f.packets.length ≤ 64 → f.ackDelayTime ≠ kInfiniteTimeUs → requiredAckFrameSize e f ≤ w.remaining) := by
  obtain ⟨first, rest, hr⟩ := hf.ranges
  have hlength := hr.length
  constructor
  · rw [← append_iff_required he hr (by omega)]
    constructor
    · rintro ⟨w', h, -⟩
      exact ⟨w', h⟩
    · rintro ⟨w', h⟩
      obtain ⟨k, -, hwrite, -⟩ := written_of_ok he hr h
      obtain ⟨hle, -, hbuf⟩ := writeBytes_eq_some.1 hwrite
      refine ⟨w', h, ?_⟩
      rw [hbuf, length_append]
      omega
  · intro hfew hfinite
    rw [required_eq_min hr hfew hfinite]
    exact min_le_of_accepted hr hfew haccept

theorem accepted_ack_written_forty : requiredAckFrameSize 3 (alternateAckFrame 39) ≤ 30 ∧
      ∃ w', appendIetfAckFrameAndTypeByte 3 (alternateAckFrame 39) (fresh 30) = .ok w' ∧
        w'.buffer.length ≤ (fresh 30).buffer.length + (fresh 30).remaining := by
  have h := accepted_ack_written (w := fresh 30) (alternateAckFrame_wellFormed (n := 39) (by decide))
    (alternateAckFrame_encodable (by decide)) (by decide +kernel) (by decide +kernel)
  have hrequired := h.2 (by decide +kernel) (by decide)
  exact ⟨hrequired, h.1.2 hrequired⟩

end QuicFramer

end Quictun
