import Quictun.AckFrame

/-!
# Writing and reading back an ACK frame

What `AppendIetfAckFrameAndTypeByte()` writes is described by the bytes of a frame with the
ranges that fitted. `ProcessIetfAckFrame()` reads such bytes back, and for any other bytes
reports only ranges that an ACK can have.
-/

namespace Quictun

open QuicIntervalSet List Word Option

/-! ## Ranges from the highest down -/

def Below : Nat → List (QuicInterval Nat) → Prop
  | _, [] => True
  | previousSmallest, i :: rest => i.min < i.max ∧ i.max < previousSmallest ∧ Below i.min rest

variable {p : Nat} {rest : List (QuicInterval Nat)}

theorem below_iff : Below p rest ↔ Canonical rest.reverse ∧ ∀ i ∈ rest, i.max < p := by
  induction rest generalizing p with
  | nil => simp [Below, canonical_nil]
  | cons i rest ih =>
    rw [Below, ih, reverse_cons, canonical_append]
    constructor
    · rintro ⟨hi, hip, hrest, hall⟩
      refine ⟨⟨hrest, canonical_singleton hi, ?_⟩, ?_⟩
      · intro j hj k hk
        rw [mem_singleton.1 hk]
        exact hall j (mem_reverse.1 hj)
      · intro j hj
        rcases mem_cons.1 hj with rfl | hj
        · exact hip
        · have := hall j hj
          omega
    · rintro ⟨⟨hrest, hi, hbelow⟩, hall⟩
      refine ⟨hi.nonempty i (mem_singleton_self i), hall i mem_cons_self, hrest, ?_⟩
      intro j hj
      exact hbelow j (mem_reverse.2 hj) i (mem_singleton_self i)

theorem Below.length_le (h : Below p rest) : rest.length ≤ p := by
  induction rest generalizing p with
  | nil => exact Nat.zero_le p
  | cons i rest ih =>
    obtain ⟨h1, h2, h3⟩ := h
    have := ih h3
    rw [length_cons]
    omega

theorem Below.take {p : Nat} {rest : List (QuicInterval Nat)} (h : Below p rest) (k : Nat) : Below p (rest.take k) := by
  induction rest generalizing p k with
  | nil => simp [Below]
  | cons i rest ih =>
    obtain ⟨h1, h2, h3⟩ := h
    cases k with
    | zero => exact trivial
    | succ k => exact ⟨h1, h2, ih h3 k⟩

theorem QuicInterval.length_eq {i : QuicInterval Nat} (h : i.min < i.max) : i.length = i.max - i.min := by
  rw [length, empty_eq_false.2 h, if_neg Bool.false_ne_true]

namespace QuicAckFrame

structure WellFormed (f : QuicAckFrame) : Prop where
  canonical : Canonical f.packets
  ne_nil : f.packets ≠ []
  positive : ∀ i ∈ f.packets, 1 ≤ i.min
  largest : ∀ i, f.packets.getLast? = some i → i.max - 1 = f.largestAcked
  largestAcked_lt : f.largestAcked < 2 ^ 64
  ackDelayTime_lt : f.ackDelayTime < 2 ^ 63
  ecn_lt : ∀ c, f.ecnCounters = some c → c.ect0 < 2 ^ 64 ∧ c.ect1 < 2 ^ 64 ∧ c.ce < 2 ^ 64

structure Encodable (e : Nat) (f : QuicAckFrame) : Prop where
  largestAcked_lt : f.largestAcked < 2 ^ 62
  ackDelay_lt : QuicFramer.ackDelayTimeUs e f < 2 ^ 62
  ecn_lt : ∀ c, f.ecnCounters = some c → c.ect0 < 2 ^ 62 ∧ c.ect1 < 2 ^ 62 ∧ c.ce < 2 ^ 62

structure Ranges (f : QuicAckFrame) (first : QuicInterval Nat) (rest : List (QuicInterval Nat)) : Prop where
  reverse : f.packets.reverse = first :: rest
  nonempty : first.min < first.max
  largest : first.max = f.largestAcked + 1
  below : Below first.min rest
  positive : ∀ i ∈ first :: rest, 1 ≤ i.min

variable {f : QuicAckFrame}

theorem WellFormed.ranges (h : f.WellFormed) : ∃ first rest, f.Ranges first rest := by
  obtain ⟨first, rest, hr⟩ := exists_cons_of_ne_nil (mt reverse_eq_nil_iff.1 h.ne_nil)
  have hp : f.packets = rest.reverse ++ [first] := by
    rw [← reverse_cons, ← hr, reverse_reverse]
  have hc := h.canonical
  rw [hp] at hc
  obtain ⟨hrest, hfirst, hbelow⟩ := canonical_append.1 hc
  have hne := hfirst.nonempty first (mem_singleton_self first)
  refine ⟨first, rest, hr, hne, ?_, below_iff.2 ⟨hrest, ?_⟩, ?_⟩
  · have := h.largest first (by rw [hp, getLast?_concat])
    omega
  · intro i hi
    exact hbelow i (mem_reverse.2 hi) first (mem_singleton_self first)
  · intro i hi
    rw [← hr] at hi
    exact h.positive i (mem_reverse.1 hi)

section
variable {first : QuicInterval Nat} {rest : List (QuicInterval Nat)} (hr : f.Ranges first rest)
include hr

theorem Ranges.length : f.packets.length = rest.length + 1 := by
  rw [← length_reverse, hr.reverse, length_cons]

theorem Ranges.not_ne_largest : ¬ first.max - 1 ≠ f.largestAcked := by
  have := hr.largest
  omega

theorem Ranges.bounds {e : Nat} (he : f.Encodable e) :
    first.min < first.max ∧ first.max ≤ 2 ^ 62 ∧ rest.length ≤ first.min := by
  have h1 := he.largestAcked_lt
  have h2 := hr.largest
  exact ⟨hr.nonempty, by omega, hr.below.length_le⟩

end

end QuicAckFrame

namespace QuicFramer

open QuicheDataWriter QuicheDataReader

/-! ## The bytes of a frame -/

def ackBlockBytes : Nat → List (QuicInterval Nat) → Bytes
  | _, [] => []
  | p, i :: rest => varInt62 (p - i.max - 1) ++ varInt62 (i.max - i.min - 1) ++ ackBlockBytes i.min rest

def ecnBytes (f : QuicAckFrame) : Bytes :=
  match f.ecnCounters with
  | none => []
  | some c => varInt62 c.ect0 ++ varInt62 c.ect1 ++ varInt62 c.ce

def ackHeaderBytes (e : Nat) (f : QuicAckFrame) : Bytes :=
  varInt62 (ackFrameType f) ++ varInt62 f.largestAcked ++ varInt62 (ackDelayTimeUs e f)

def ackFrameBytes (e : Nat) (f : QuicAckFrame) (first : QuicInterval Nat) (rest : List (QuicInterval Nat)) : Bytes :=
  ackHeaderBytes e f ++ varInt62 rest.length ++ varInt62 (first.max - first.min - 1) ++ ackBlockBytes first.min rest ++
    ecnBytes f

section
variable {e p k : Nat} {f : QuicAckFrame} {first : QuicInterval Nat} {rest : List (QuicInterval Nat)}
  {w w' : QuicheDataWriter}

theorem ackFrameType_lt (f : QuicAckFrame) : ackFrameType f < 2 ^ 6 := by
  unfold ackFrameType
  split <;> decide

section
variable (h : ∀ c, f.ecnCounters = some c → c.ect0 < 2 ^ 62 ∧ c.ect1 < 2 ^ 62 ∧ c.ce < 2 ^ 62)
include h

theorem length_ecnBytes :
    (ecnBytes f).length = ackEcnCountSize f := by
  unfold ecnBytes ackEcnCountSize
  cases hc : f.ecnCounters with
  | none => rfl
  | some c =>
    obtain ⟨h0, h1, h2⟩ := h c hc
    simp [length_varInt62 h0, length_varInt62 h1, length_varInt62 h2, add_assoc]

theorem appendEcnCounts_eq_ok :
    appendEcnCounts f w = .ok w' ↔ w.writeBytes (ecnBytes f) = some w' := by
  unfold appendEcnCounts ecnBytes
  cases hc : f.ecnCounters with
  | none =>
    rw [writeBytes_nil, Except.ok.injEq, some.injEq]
  | some c =>
    obtain ⟨h0, h1, h2⟩ := h c hc
    rw [writeBytes_append, writeBytes_append, bind_assoc, bind_eq_some_iff]
    simp only [bind_eq_ok, writeVarInt62OrError_eq_ok, writeVarInt62_eq_writeBytes _ h0,
      writeVarInt62_eq_writeBytes _ h1,
      writeVarInt62_eq_writeBytes _ h2, bind_eq_some_iff]

end

/-! ## The loop over the further ranges -/

theorem appendAckBlocks_of_lt {ecn n : Nat} (h : w.remaining < ecn) : appendAckBlocks ecn w p rest n = (w, n) := by
  cases rest with
  | nil => rfl
  | cons i rest => rw [appendAckBlocks, if_pos (.inl h)]

theorem appendAckBlocks_spec {ecn : Nat} : ∀ {rest : List (QuicInterval Nat)} {p n : Nat} {w : QuicheDataWriter},
    Below p rest → p < 2 ^ 62 → ecn ≤ w.remaining → ∃ k w', appendAckBlocks ecn w p rest n = (w', n + k) ∧
      k ≤ rest.length ∧
      w.writeBytes (ackBlockBytes p (rest.take k)) = some w' ∧
      ∀ j ≤ rest.length, ecn + (ackBlockBytes p (rest.take j)).length ≤ w.remaining ↔ j ≤ k
  | [], p, n, w, _, _, hecn => by
    refine ⟨0, w, rfl, le_refl 0, writeBytes_nil w, ?_⟩
    · intro j hj
      have := Nat.le_zero.1 hj
      simp [ackBlockBytes, hecn, this]
  | i :: rest, p, n, w, hb, hp, hecn => by
    obtain ⟨hi, hip, hrest⟩ := hb
    have hg : p - i.max - 1 < 2 ^ 62 := by omega
    have hr : i.length - 1 < 2 ^ 62 := by
      rw [QuicInterval.length_eq hi]
      omega
    have hlen : (varInt62 (p - i.max - 1) ++ varInt62 (i.max - i.min - 1)).length =
        getVarInt62Len (p - i.max - 1) + getVarInt62Len (i.length - 1) := by
      rw [length_append, length_varInt62 hg, ← QuicInterval.length_eq hi, length_varInt62 hr]
    have hfirst : ∀ j, (ackBlockBytes p ((i :: rest).take (j + 1))).length =
        getVarInt62Len (p - i.max - 1) + getVarInt62Len (i.length - 1) +
          (ackBlockBytes i.min (rest.take j)).length := by
      intro j
      rw [take_succ_cons, ackBlockBytes, length_append, hlen]
    rw [appendAckBlocks]
    split
    · refine ⟨0, w, rfl, Nat.zero_le _, writeBytes_nil w, ?_⟩
      · intro j hj
        cases j with
        | zero => simp [ackBlockBytes, hecn]
        | succ j =>
          rw [hfirst]
          omega
    · -- both values are written
      obtain ⟨w₁, hw1⟩ := exists_writeBytes (by omega :
        (varInt62 (p - i.max - 1) ++ varInt62 (i.max - i.min - 1)).length ≤ w.remaining)
      have hrem := remaining_of_write hw1
      rw [hlen] at hrem
      have hwrite := hw1
      rw [writeBytes_append, bind_eq_some_iff] at hwrite
      obtain ⟨w₀, hw0, hwr⟩ := hwrite
      rw [writeVarInt62_eq_writeBytes w hg, hw0]
      dsimp only
      rw [writeVarInt62_eq_writeBytes w₀ hr, QuicInterval.length_eq hi, hwr, getD_some]
      have hecn1 : ecn ≤ w₁.remaining := by omega
      obtain ⟨k, w', happ, hk, hwk, hmax⟩ := appendAckBlocks_spec (n := n + 1) hrest (by omega) hecn1
      refine ⟨k + 1, w', ?_, ?_, ?_, ?_⟩
      · rw [happ, add_assoc, add_comm 1 k]
      · rw [length_cons]
        omega
      · rw [take_succ_cons, ackBlockBytes, writeBytes_append, hw1, bind_some, hwk]
      · intro j hj
        cases j with
        | zero => simp [ackBlockBytes, hecn]
        | succ j =>
          rw [length_cons] at hj
          have := hmax j (by omega)
          rw [hfirst]
          omega

/-! ## The whole frame -/

theorem appendIetfAckFrameAndTypeByte_eq_ok (hr : f.Ranges first rest) : appendIetfAckFrameAndTypeByte e f w = .ok w' ↔
    ∃ w₀, w.writeVarInt62 (ackFrameType f) = some w₀ ∧ ∃ w₁, w₀.writeVarInt62 f.largestAcked = some w₁ ∧
      ∃ w₂, w₁.writeVarInt62 (ackDelayTimeUs e f) = some w₂ ∧ ∃ w₃, w₂.writeVarInt62 rest.length = some w₃ ∧
      ∃ w₄, w₃.writeVarInt62 (first.max - first.min - 1) = some w₄ ∧
      ∃ w₅, rewriteAckBlockCount (appendAckBlocks (ackEcnCountSize f) w₄ first.min rest 0).1 w₂.buffer.length
        rest.length (appendAckBlocks (ackEcnCountSize f) w₄ first.min rest 0).2 = .ok w₅ ∧
        appendEcnCounts f w₅ = .ok w' := by
  unfold appendIetfAckFrameAndTypeByte
  simp only [bind_eq_ok, writeVarInt62OrError_eq_ok, hr.reverse, if_neg hr.not_ne_largest,
    QuicInterval.length_eq hr.nonempty]

theorem encodable_of_ok (hf : f.WellFormed) (h : appendIetfAckFrameAndTypeByte e f w = .ok w') : f.Encodable e := by
  obtain ⟨first, rest, hr⟩ := hf.ranges
  obtain ⟨w₀, -, w₁, h1, w₂, h2, w₃, -, w₄, -, w₅, -, h⟩ := (appendIetfAckFrameAndTypeByte_eq_ok hr).1 h
  have hdelay : ackDelayTimeUs e f < 2 ^ 64 := by
    unfold ackDelayTimeUs
    split
    · decide
    · rw [Nat.shiftRight_eq_div_pow]
      exact lt_of_le_of_lt (Nat.div_le_self _ _) (lt_trans hf.ackDelayTime_lt (by decide))
  refine ⟨lt_of_writeVarInt62 hf.largestAcked_lt h1, lt_of_writeVarInt62 hdelay h2, fun c hc => ?_⟩
  obtain ⟨b₀, b₁, b₂⟩ := hf.ecn_lt c hc
  unfold appendEcnCounts at h
  rw [hc] at h
  simp only [bind_eq_ok, writeVarInt62OrError_eq_ok] at h
  obtain ⟨v₀, h0, v₁, h1, h2⟩ := h
  exact ⟨lt_of_writeVarInt62 b₀ h0, lt_of_writeVarInt62 b₁ h1, lt_of_writeVarInt62 b₂ h2⟩

def ackHeaderSize (e : Nat) (f : QuicAckFrame) (first : QuicInterval Nat) (count : Nat) : Nat :=
  1 + getVarInt62Len f.largestAcked + getVarInt62Len (ackDelayTimeUs e f) + getVarInt62Len count +
    getVarInt62Len (first.max - first.min - 1) + ackEcnCountSize f

theorem length_ackFrameBytes (he : f.Encodable e) (hr : f.Ranges first rest) (k : Nat) :
    (ackFrameBytes e f first (rest.take k)).length =
      ackHeaderSize e f first (rest.take k).length + (ackBlockBytes first.min (rest.take k)).length := by
  obtain ⟨hne, hfirst, -⟩ := hr.bounds he
  have hle := (hr.below.take k).length_le
  have htype := ackFrameType_lt f
  have hone : getVarInt62Len (ackFrameType f) = 1 := by
    unfold ackFrameType
    split <;> decide
  rw [ackFrameBytes, ackHeaderBytes, ackHeaderSize]
  simp only [length_append]
  rw [length_varInt62 (by omega : ackFrameType f < 2 ^ 62), length_varInt62 he.largestAcked_lt,
    length_varInt62 he.ackDelay_lt,
    length_varInt62 (by omega : (rest.take k).length < 2 ^ 62),
    length_varInt62 (by omega : first.max - first.min - 1 < 2 ^ 62), length_ecnBytes he.ecn_lt, hone]
  omega

theorem overwrite_append {a b c d : Bytes} (hbuf : w.buffer = a ++ b ++ c) (hd : d.length = b.length) :
    (w.overwrite a.length d).buffer = a ++ d ++ c ∧ (w.overwrite a.length d).capacity = w.capacity := by
  have hle : a.length + d.length ≤ w.buffer.length := by
    simp only [hbuf, length_append]
    omega
  rw [overwrite, dif_pos hle]
  refine ⟨?_, rfl⟩
  have htake : (a ++ b ++ c).take a.length = a := by rw [append_assoc, take_left]
  dsimp only
  rw [hbuf, hd, htake, ← length_append, drop_left]

theorem remaining_overwrite (w : QuicheDataWriter) (pos : Nat) (d : Bytes) :
    (w.overwrite pos d).remaining = w.remaining := by
  unfold overwrite
  by_cases h : pos + d.length ≤ w.buffer.length
  · rw [dif_pos h]
    simp only [remaining, length_append, length_take, length_drop]
    omega
  · rw [dif_neg h]

theorem rewriteAckBlockCount_eq_ok {pos n k : Nat} (hk : k ≤ n) (hn : n < 2 ^ 62) :
    rewriteAckBlockCount w pos n k = .ok w' ↔
    getVarInt62Len k = getVarInt62Len n ∧ w' = if k < n then w.overwrite pos (varInt62 k) else w := by
  unfold rewriteAckBlockCount
  by_cases hlt : k < n
  · rw [if_pos hlt, if_pos hlt]
    by_cases hlen : getVarInt62Len k = getVarInt62Len n
    · have hle : (varInt62 k).length ≤ (fresh (getVarInt62Len n)).remaining := by
        rw [length_varInt62 (by omega), hlen]
        exact le_rfl
      obtain ⟨countWriter, hwrite⟩ := exists_writeBytes hle
      have hbuf : countWriter.buffer = varInt62 k := (writeBytes_eq_some.1 hwrite).2.2
      rw [if_neg (not_not.2 hlen), writeVarInt62_eq_writeBytes _ (by omega), hwrite]
      simp [hlen, hbuf, eq_comm]
    · rw [if_pos hlen]
      simp [hlen]
  · have hkn : k = n := by omega
    rw [if_neg hlt, if_neg hlt]
    simp [hkn, eq_comm]

theorem append_eq_ok (he : f.Encodable e) (hr : f.Ranges first rest) : appendIetfAckFrameAndTypeByte e f w = .ok w' ↔
    ∃ w₂ w₄ w₅, w.writeBytes (ackHeaderBytes e f) = some w₂ ∧
      w₂.writeBytes (varInt62 rest.length ++ varInt62 (first.max - first.min - 1)) = some w₄ ∧
      rewriteAckBlockCount (appendAckBlocks (ackEcnCountSize f) w₄ first.min rest 0).1 w₂.buffer.length rest.length
        (appendAckBlocks (ackEcnCountSize f) w₄ first.min rest 0).2 = .ok w₅ ∧
      w₅.writeBytes (ecnBytes f) = some w' := by
  obtain ⟨hne, hfirst, hlen⟩ := hr.bounds he
  have htype := ackFrameType_lt f
  rw [appendIetfAckFrameAndTypeByte_eq_ok hr, ackHeaderBytes]
  simp only [writeVarInt62_eq_writeBytes _ (by omega : ackFrameType f < 2 ^ 62),
    writeVarInt62_eq_writeBytes _ he.largestAcked_lt, writeVarInt62_eq_writeBytes _ he.ackDelay_lt,
    writeVarInt62_eq_writeBytes _ (by omega : rest.length < 2 ^ 62),
    writeVarInt62_eq_writeBytes _ (by omega : first.max - first.min - 1 < 2 ^ 62), appendEcnCounts_eq_ok he.ecn_lt,
    writeBytes_append, bind_eq_some_iff]
  constructor
  · rintro ⟨w₀, h0, w₁, h1, w₂, h2, w₃, h3, w₄, h4, w₅, h5, h⟩
    exact ⟨w₂, w₄, w₅, ⟨w₁, ⟨w₀, h0, h1⟩, h2⟩, ⟨w₃, h3, h4⟩, h5, h⟩
  · rintro ⟨w₂, w₄, w₅, ⟨w₁, ⟨w₀, h0, h1⟩, h2⟩, ⟨w₃, h3, h4⟩, h5, h⟩
    exact ⟨w₀, h0, w₁, h1, w₂, h2, w₃, h3, w₄, h4, w₅, h5, h⟩

theorem length_header (he : f.Encodable e) (hr : f.Ranges first rest) :
    (ackHeaderBytes e f).length + (varInt62 rest.length ++ varInt62 (first.max - first.min - 1)).length +
      ackEcnCountSize f =
      ackHeaderSize e f first rest.length := by
  have h := length_ackFrameBytes he hr rest.length
  rw [take_length, ackFrameBytes] at h
  simp only [length_append, length_ecnBytes he.ecn_lt] at h ⊢
  omega

theorem recounted {w₂ wk : QuicheDataWriter} {k n : Nat} {tail : Bytes} (hk : k ≤ n) (hn : n < 2 ^ 62)
    (hlen : getVarInt62Len k = getVarInt62Len n) (hbuf : wk.buffer = w₂.buffer ++ varInt62 n ++ tail) :
    (if k < n then wk.overwrite w₂.buffer.length (varInt62 k) else wk).remaining = wk.remaining ∧
    (if k < n then wk.overwrite w₂.buffer.length (varInt62 k) else wk).capacity = wk.capacity ∧
    (if k < n then wk.overwrite w₂.buffer.length (varInt62 k) else wk).buffer = w₂.buffer ++ varInt62 k ++ tail := by
  by_cases hlt : k < n
  · have hlen' : (varInt62 k).length = (varInt62 n).length := by
      rw [length_varInt62 (by omega), length_varInt62 hn, hlen]
    obtain ⟨hb, hc⟩ := overwrite_append hbuf hlen'
    rw [if_pos hlt]
    exact ⟨remaining_overwrite .., hc, hb⟩
  · obtain rfl : k = n := by omega
    rw [if_neg hlt]
    exact ⟨rfl, rfl, hbuf⟩

theorem append_spec (he : f.Encodable e) (hr : f.Ranges first rest)
    (hroom : ackHeaderSize e f first rest.length ≤ w.remaining) :
    ∃ k ≤ rest.length,
      (∀ j ≤ rest.length,
        ackHeaderSize e f first rest.length + (ackBlockBytes first.min (rest.take j)).length ≤ w.remaining ↔ j ≤ k) ∧
      (getVarInt62Len k = getVarInt62Len rest.length →
        ∃ w', appendIetfAckFrameAndTypeByte e f w = .ok w' ∧
          w.writeBytes (ackFrameBytes e f first (rest.take k)) = some w') ∧
      (getVarInt62Len k ≠ getVarInt62Len rest.length → ∀ w', appendIetfAckFrameAndTypeByte e f w ≠ .ok w') := by
  obtain ⟨hne, hfirst, hn⟩ := hr.bounds he
  have hsize := length_header he hr
  obtain ⟨w₂, h2⟩ := exists_writeBytes (by omega : (ackHeaderBytes e f).length ≤ w.remaining)
  have hr2 := remaining_of_write h2
  obtain ⟨w₄, h4⟩ := exists_writeBytes (by omega :
    (varInt62 rest.length ++ varInt62 (first.max - first.min - 1)).length ≤ w₂.remaining)
  have hr4 := remaining_of_write h4
  have hecn4 : ackEcnCountSize f ≤ w₄.remaining := by omega
  obtain ⟨k, wk, happ, hk, hwk, hmax⟩ := appendAckBlocks_spec (n := 0) hr.below (by omega) hecn4
  have happend : ∀ w', appendIetfAckFrameAndTypeByte e f w = .ok w' ↔ getVarInt62Len k = getVarInt62Len rest.length ∧
      (if k < rest.length then wk.overwrite w₂.buffer.length (varInt62 k) else wk).writeBytes (ecnBytes f) =
        some w' := by
    intro w'
    rw [append_eq_ok he hr]
    constructor
    · rintro ⟨v₂, v₄, w₅, hv2, hv4, h5, h⟩
      obtain rfl : w₂ = v₂ := some.inj (h2.symm.trans hv2)
      obtain rfl : w₄ = v₄ := some.inj (h4.symm.trans hv4)
      rw [happ, zero_add, rewriteAckBlockCount_eq_ok hk (by omega)] at h5
      rw [← h5.2]
      exact ⟨h5.1, h⟩
    · rintro ⟨hlen, h⟩
      refine ⟨w₂, w₄, _, h2, h4, ?_, h⟩
      rw [happ, zero_add, rewriteAckBlockCount_eq_ok hk (by omega)]
      exact ⟨hlen, rfl⟩
  refine ⟨k, hk, ?_, ?_, ?_⟩
  · intro j hj
    have := hmax j hj
    omega
  · intro hlen
    have hrk := remaining_of_write hwk
    obtain ⟨-, hc2, hb2⟩ := writeBytes_eq_some.1 h2
    obtain ⟨-, hc4, hb4⟩ := writeBytes_eq_some.1 h4
    obtain ⟨-, hck, hbk⟩ := writeBytes_eq_some.1 hwk
    have htake : (rest.take k).length = k := length_take_of_le hk
    have hbuf : wk.buffer = w₂.buffer ++ varInt62 rest.length ++
        (varInt62 (first.max - first.min - 1) ++ ackBlockBytes first.min (rest.take k)) := by
      rw [hbk, hb4]
      simp only [append_assoc]
    obtain ⟨hr5, hc5, hb5⟩ := recounted hk (by omega) hlen hbuf
    generalize hw5 : (if k < rest.length then wk.overwrite w₂.buffer.length (varInt62 k) else wk) =
      w₅ at hr5 hc5 hb5 happend
    have hfit := (hmax k hk).2 (le_refl k)
    have hecn := length_ecnBytes he.ecn_lt
    obtain ⟨w', hw'⟩ := exists_writeBytes (by omega : (ecnBytes f).length ≤ w₅.remaining)
    obtain ⟨-, hc', hb'⟩ := writeBytes_eq_some.1 hw'
    refine ⟨w', (happend w').2 ⟨hlen, hw'⟩, writeBytes_eq_some.2 ⟨?_, ?_, ?_⟩⟩
    · rw [length_ackFrameBytes he hr, htake]
      have hsame : ackHeaderSize e f first k = ackHeaderSize e f first rest.length := by
        rw [ackHeaderSize, ackHeaderSize, hlen]
      omega
    · rw [hc', hc5, hck, hc4, hc2]
    · rw [hb', hb5, hb2, ackFrameBytes, htake]
      simp only [append_assoc]
  · intro hlen w' h
    exact hlen ((happend w').1 h).1

theorem append_ne_ok (he : f.Encodable e) (hr : f.Ranges first rest)
    (hroom : w.remaining < ackHeaderSize e f first rest.length) (w' : QuicheDataWriter) :
    appendIetfAckFrameAndTypeByte e f w ≠ .ok w' := by
  intro h
  obtain ⟨hne, hfirst, hn⟩ := hr.bounds he
  have hsize := length_header he hr
  obtain ⟨w₂, w₄, w₅, h2, h4, h5, h⟩ := (append_eq_ok he hr).1 h
  have hle2 := (writeBytes_eq_some.1 h2).1
  have hle4 := (writeBytes_eq_some.1 h4).1
  have hr2 := remaining_of_write h2
  have hr4 := remaining_of_write h4
  have hecn := (writeBytes_eq_some.1 h).1
  rw [length_ecnBytes he.ecn_lt] at hecn
  rw [appendAckBlocks_of_lt (by omega), rewriteAckBlockCount_eq_ok (Nat.zero_le _) (by omega)] at h5
  have hr5 : w₅.remaining = w₄.remaining := by
    rw [h5.2]
    split
    · exact remaining_overwrite ..
    · rfl
  omega

/-! ## Reading back -/

def lowestBlock : Nat → List (QuicInterval Nat) → Nat
  | p, [] => p
  | _, i :: rest => lowestBlock i.min rest

theorem finishAckFrame_ecnBytes (h : ∀ c, f.ecnCounters = some c → c.ect0 < 2 ^ 62 ∧ c.ect1 < 2 ^ 62 ∧ c.ce < 2 ^ 62)
    (p : Nat) (d : AckDecoding) (tail : Bytes) : finishAckFrame .acceptAll (ackFrameType f) p d (ecnBytes f ++ tail) =
      { d with ended := some (p, f.ecnCounters), result := .ok tail } := by
  unfold finishAckFrame ackFrameType ecnBytes
  cases hc : f.ecnCounters with
  | none => rfl
  | some c =>
    obtain ⟨h0, h1, h2⟩ := h c hc
    simp [processEcnCounts, readVarInt62_varInt62 h0, readVarInt62_varInt62 h1, readVarInt62_varInt62 h2, Except.map,
      AckVisitor.acceptAll]

theorem processAckBlocks_ackBlockBytes {t : Nat} {tail : Bytes} :
    ∀ {rest : List (QuicInterval Nat)} {p : Nat} {d : AckDecoding}, Below p rest → p < 2 ^ 62 →
      (∀ i ∈ rest, 1 ≤ i.min) →
      processAckBlocks .acceptAll t rest.length p d (ackBlockBytes p rest ++ tail) =
        finishAckFrame .acceptAll t (lowestBlock p rest) { d with ranges := d.ranges ++ rest } tail
  | [], p, d, _, _, _ => by simp [processAckBlocks, ackBlockBytes, lowestBlock]
  | i :: rest, p, d, hb, hp, hpos => by
    obtain ⟨hi, hip, hrest⟩ := hb
    have hmin : 1 ≤ i.min := hpos i List.mem_cons_self
    have hgap : Word.add (p - i.max - 1) 2 = p - i.max + 1 := by
      rw [add_eq (by omega)]
      omega
    have hhigh : sub (sub p 1) (p - i.max - 1) = i.max := by
      have hone : sub p 1 = p - 1 := sub_eq (by omega) (by omega)
      rw [hone, sub_eq (by omega) (by omega)]
      omega
    have hcheck : sub i.max 1 = i.max - 1 := sub_eq (by omega) (by omega)
    have hadd : Word.add (i.max - i.min - 1) 1 = i.max - i.min := by
      rw [add_eq (by omega)]
      omega
    have hlow : sub (i.max - 1) (i.max - i.min - 1) = i.min := by
      rw [sub_eq (by omega) (by omega)]
      omega
    rw [length_cons, processAckBlocks, ackBlockBytes, append_assoc, append_assoc,
      readVarInt62_varInt62 (by omega)]
    dsimp only
    rw [hgap, if_neg (by omega), readVarInt62_varInt62 (by omega)]
    dsimp only
    rw [hhigh, hcheck, kFirstSendingPacketNumber, hadd, if_neg (by omega), hlow]
    simp only [AckVisitor.acceptAll, if_true, overflows, underflows]
    rw [if_neg (by omega), if_neg (by omega), if_neg (by omega), if_neg (by omega), if_neg (by omega)]
    simp only [append_nil]
    have ih := @processAckBlocks_ackBlockBytes t tail rest i.min { d with ranges := d.ranges ++ [i] } hrest (by omega)
      (fun j hj => hpos j (mem_cons_of_mem i hj))
    rw [AckVisitor.acceptAll] at ih
    rw [ih, lowestBlock, append_assoc, singleton_append]

theorem processIetfAckFrame_ackFrameBytes (hr : f.Ranges first rest) (he : f.Encodable e) (k : Nat) (tail : Bytes) :
    ∃ body, readVarInt62 (ackFrameBytes e f first (rest.take k) ++ tail) = some (ackFrameType f, body) ∧
      processIetfAckFrame .acceptAll e (ackFrameType f) body =
        { started := some (f.largestAcked, ackDelayTime e (ackDelayTimeUs e f))
          ranges := first :: rest.take k
          ended := some (lowestBlock first.min (rest.take k), f.ecnCounters)
          result := .ok tail } := by
  have htype := ackFrameType_lt f
  obtain ⟨hne, hfirst, -⟩ := hr.bounds he
  have hlargest := hr.largest
  have hmin := hr.positive first mem_cons_self
  have hlen := (hr.below.take k).length_le
  have hhigh : add f.largestAcked 1 = first.max := by
    rw [add_eq (by omega), hlargest]
  have hlow : sub f.largestAcked (first.max - first.min - 1) = first.min := by
    rw [sub_eq (by omega) (by omega)]
    omega
  have hadd : Word.add (first.max - first.min - 1) 1 = first.max - first.min := by
    rw [add_eq (by omega)]
    omega
  have hpos : ∀ i ∈ rest.take k, 1 ≤ i.min := fun i hi => hr.positive i (mem_cons_of_mem first (mem_of_mem_take hi))
  rw [ackFrameBytes, ackHeaderBytes]
  simp only [append_assoc]
  refine ⟨_, readVarInt62_varInt62 (by omega) _, ?_⟩
  rw [processIetfAckFrame, readVarInt62_varInt62 he.largestAcked_lt]
  dsimp only
  rw [kFirstSendingPacketNumber, if_neg (by omega), readVarInt62_varInt62 he.ackDelay_lt]
  dsimp only
  rw [if_neg (by simp [AckVisitor.acceptAll]), readVarInt62_varInt62 (by omega)]
  dsimp only
  rw [readVarInt62_varInt62 (by omega)]
  dsimp only
  rw [hadd, hlow, hhigh, if_neg (by omega), if_pos (by simp [AckVisitor.acceptAll]),
    processAckBlocks_ackBlockBytes (hr.below.take k) (by omega) hpos,
    finishAckFrame_ecnBytes he.ecn_lt]
  simp only [overflows, underflows]
  rw [if_neg (by omega), if_neg (by omega), if_neg (by omega)]
  simp

theorem ackDelayTime_ackDelayTimeUs (e : Nat) (f : QuicAckFrame) : ackDelayTime e (ackDelayTimeUs e f) =
    if f.ackDelayTime >>> e < kVarInt62MaxValue >>> e then f.ackDelayTime / 2 ^ e * 2 ^ e else kInfiniteTimeUs := by
  unfold ackDelayTime ackDelayTimeUs
  by_cases hinf : f.ackDelayTime = kInfiniteTimeUs
  · have hle : kVarInt62MaxValue >>> e ≤ kInfiniteTimeUs >>> e := by
      rw [Nat.shiftRight_eq_div_pow, Nat.shiftRight_eq_div_pow]
      exact Nat.div_le_div_right (by decide)
    have hle' : kVarInt62MaxValue >>> e ≤ kVarInt62MaxValue := Nat.shiftRight_le ..
    rw [if_pos hinf, if_pos hle', hinf, if_neg (not_lt.2 hle)]
  · rw [if_neg hinf]
    by_cases hlt : f.ackDelayTime >>> e < kVarInt62MaxValue >>> e
    · rw [if_neg (not_le.2 hlt), if_pos hlt, Nat.shiftLeft_eq, Nat.shiftRight_eq_div_pow]
    · rw [if_pos (not_lt.1 hlt), if_neg hlt]

end

/-! ## Any bytes -/

structure AckDecoding.Sound (d : AckDecoding) : Prop where
  canonical : Canonical d.ranges.reverse
  first_le : ∀ r ∈ d.ranges, kFirstSendingPacketNumber ≤ r.min

section
variable {visitor : AckVisitor} {t : Nat}

theorem finishAckFrame_keeps (visitor : AckVisitor) (t low : Nat) (d : AckDecoding) (bytes : Bytes) :
    (finishAckFrame visitor t low d bytes).ranges = d.ranges ∧
      (finishAckFrame visitor t low d bytes).wraps = d.wraps := by
  unfold finishAckFrame
  split
  · exact ⟨rfl, rfl⟩
  · split <;> exact ⟨rfl, rfl⟩

theorem AckDecoding.sound_of_nil {d : AckDecoding} (hd : d.ranges = []) : d.Sound := by
  constructor
  · rw [hd]
    exact canonical_nil
  · rw [hd]
    simp

/-- No subtraction of values from the packet wraps around, except that of a first range that is rejected for it. -/
structure AckDecoding.Safe (d : AckDecoding) : Prop extends d.Sound where
  wraps : d.wraps = [] ∨ d.wraps = [.firstBlockLow] ∧ d.ranges = [] ∧ ∃ error, d.result = .error error

theorem AckDecoding.safe_of_nil {d : AckDecoding} (hd : d.ranges = []) (hw : d.wraps = []) : d.Safe :=
  ⟨sound_of_nil hd, .inl hw⟩

theorem AckDecoding.Sound.concat {d d' : AckDecoding} {a b : Nat} (h : d.Sound) (hd : d'.ranges = d.ranges ++ [⟨a, b⟩])
    (hr : a < b) (hfirst : kFirstSendingPacketNumber ≤ a) (hbelow : ∀ i ∈ d.ranges, b < i.min) : d'.Sound := by
  constructor
  · rw [hd, reverse_concat, canonical_cons]
    exact ⟨hr, fun i hi => hbelow i (mem_reverse.1 hi), h.canonical⟩
  · intro i hi
    rw [hd, mem_append, mem_singleton] at hi
    rcases hi with hi | rfl
    · exact h.first_le i hi
    · exact hfirst

theorem processAckBlocks_sound : ∀ {count low : Nat} {d : AckDecoding} {bytes : Bytes}, d.Sound →
    (∀ r ∈ d.ranges, low ≤ r.min) → low < 2 ^ 62 →
    (processAckBlocks visitor t count low d bytes).Sound ∧
      (processAckBlocks visitor t count low d bytes).wraps = d.wraps
  | 0, low, d, bytes, hd, _, _ => by
    obtain ⟨hranges, hwraps⟩ := finishAckFrame_keeps visitor t low d bytes
    rw [processAckBlocks]
    exact ⟨⟨hranges ▸ hd.canonical, hranges ▸ hd.first_le⟩, hwraps⟩
  | count + 1, low, d, bytes, hd, hlow, hlt => by
    rw [processAckBlocks]
    cases hg : readVarInt62 bytes with
    | none => exact ⟨{ hd with }, rfl⟩
    | some r =>
      obtain ⟨gap, bytes⟩ := r
      have hgap := (readVarInt62_some hg).1
      have hover : overflows .gapCheck gap 2 = [] := if_neg (by omega)
      dsimp only
      rw [hover, add_eq (by omega : gap + 2 < 2 ^ 64), append_nil]
      split
      · exact ⟨{ hd with }, rfl⟩
      next =>
      have hone : sub low 1 = low - 1 := sub_eq (by omega) (by omega)
      have hunder : underflows .nextBlockHigh low (1 + gap) = [] := if_neg (by omega)
      rw [hone, sub_eq (by omega : gap ≤ low - 1) (by omega), hunder, append_nil]
      cases hv : readVarInt62 bytes with
      | none => exact ⟨{ hd with }, rfl⟩
      | some r =>
        obtain ⟨v, bytes⟩ := r
        have hval := (readVarInt62_some hv).1
        have hover : overflows .blockCheck v kFirstSendingPacketNumber = [] :=
          if_neg (by rw [kFirstSendingPacketNumber]; omega)
        have hunder : underflows .blockCheck (low - 1 - gap) 1 = [] := if_neg (by omega)
        have hhigh : sub (low - 1 - gap) 1 = low - 1 - gap - 1 := sub_eq (by omega) (by omega)
        have hadd : Word.add v kFirstSendingPacketNumber = v + kFirstSendingPacketNumber :=
          add_eq (by rw [kFirstSendingPacketNumber]; omega)
        dsimp only
        rw [hover, hunder, hhigh, hadd, append_nil, append_nil]
        split
        · exact ⟨{ hd with }, rfl⟩
        next =>
        have hunder' : underflows .blockLow (low - 1 - gap) (1 + v) = [] := if_neg (by omega)
        rw [sub_eq (by omega : v ≤ low - 1 - gap - 1) (by omega), hunder', append_nil]
        -- the range is non-empty, and below the last one with a gap
        have hnew : ∀ result, AckDecoding.Sound
            { d with ranges := d.ranges ++ [⟨low - 1 - gap - 1 - v, low - 1 - gap⟩], result := result } := by
          refine fun result => hd.concat rfl (by omega) (by omega) fun i hi => ?_
          have := hlow i hi
          omega
        split
        · refine processAckBlocks_sound (hnew _) ?_ (by omega)
          intro r hr
          rw [mem_append, mem_singleton] at hr
          rcases hr with hr | rfl
          · have := hlow r hr
            omega
          · exact le_rfl
        · exact ⟨hnew _, rfl⟩

theorem processIetfAckFrame_safe (visitor : AckVisitor) (e t : Nat) (bytes : Bytes) :
    (processIetfAckFrame visitor e t bytes).Safe := by
  unfold processIetfAckFrame
  cases hl : readVarInt62 bytes with
  | none => exact AckDecoding.safe_of_nil rfl rfl
  | some r =>
    obtain ⟨largest, bytes⟩ := r
    have hlargest := (readVarInt62_some hl).1
    dsimp only
    split
    · exact AckDecoding.safe_of_nil rfl rfl
    next =>
    cases readVarInt62 bytes with
    | none => exact AckDecoding.safe_of_nil rfl rfl
    | some r =>
      obtain ⟨delay, bytes⟩ := r
      dsimp only
      split
      · exact AckDecoding.safe_of_nil rfl rfl
      cases readVarInt62 bytes with
      | none => exact AckDecoding.safe_of_nil rfl rfl
      | some r =>
        obtain ⟨count, bytes⟩ := r
        dsimp only
        cases hv : readVarInt62 bytes with
        | none => exact AckDecoding.safe_of_nil rfl rfl
        | some r =>
          obtain ⟨v, bytes⟩ := r
          have hval := (readVarInt62_some hv).1
          have hover : overflows .blockHigh largest 1 = [] := if_neg (by omega)
          have hover' : overflows .firstBlockCheck v kFirstSendingPacketNumber = [] :=
            if_neg (by rw [kFirstSendingPacketNumber]; omega)
          have hadd : add v kFirstSendingPacketNumber = v + kFirstSendingPacketNumber :=
            add_eq (by rw [kFirstSendingPacketNumber]; omega)
          dsimp only
          rw [hover, hover', hadd, nil_append, append_nil]
          split
          · refine ⟨AckDecoding.sound_of_nil rfl, ?_⟩
            by_cases hwrap : largest < v
            · exact .inr ⟨if_pos hwrap, rfl, _, rfl⟩
            · exact .inl (if_neg hwrap)
          next =>
          have hunder : underflows .firstBlockLow largest v = [] := if_neg (by omega)
          rw [hunder, sub_eq (by omega : v ≤ largest) (by omega), add_eq (by omega : largest + 1 < 2 ^ 64)]
          have hnew : ∀ result, AckDecoding.Sound
              { started := some (largest, ackDelayTime e delay), ranges := [⟨largest - v, largest + 1⟩],
                result := result } := by
            refine fun result =>
              AckDecoding.Sound.concat (d := { result := .ok [] }) (AckDecoding.sound_of_nil rfl) rfl ?_ ?_ ?_
            · omega
            · omega
            · simp
          split
          · have hlow : ∀ r ∈ [(⟨largest - v, largest + 1⟩ : QuicInterval Nat)], largest - v ≤ r.min := by
              intro r hr
              rw [mem_singleton.1 hr]
            refine ⟨(processAckBlocks_sound (hnew _) hlow (by omega)).1, .inl ?_⟩
            exact (processAckBlocks_sound (hnew _) hlow (by omega)).2
          · exact ⟨hnew _, .inl rfl⟩

end

/-! ## The codec -/

def ackFrameSize (e : Nat) (f : QuicAckFrame) : Nat :=
  match f.packets.reverse with
  | [] => 0
  | first :: rest => (ackFrameBytes e f first rest).length

section
variable {e : Nat} {f : QuicAckFrame} {first : QuicInterval Nat} {rest : List (QuicInterval Nat)}
  {w w' : QuicheDataWriter}

section
variable (he : f.Encodable e) (hr : f.Ranges first rest)
include he hr

theorem ackFrameSize_eq :
    ackFrameSize e f = ackHeaderSize e f first rest.length + (ackBlockBytes first.min rest).length := by
  have h := length_ackFrameBytes he hr rest.length
  rw [take_length] at h
  rw [ackFrameSize, hr.reverse]
  exact h

theorem append_of_room (hroom : ackFrameSize e f ≤ w.remaining) :
    ∃ w', appendIetfAckFrameAndTypeByte e f w = .ok w' ∧ w.writeBytes (ackFrameBytes e f first rest) = some w' := by
  have hsize := ackFrameSize_eq he hr
  obtain ⟨k, hk, hmax, hok, -⟩ := append_spec he hr (by omega : ackHeaderSize e f first rest.length ≤ w.remaining)
  have hall := (hmax rest.length le_rfl).1 (by rw [take_length]; omega)
  obtain rfl : k = rest.length := by omega
  rw [take_length] at hok
  exact hok rfl

theorem written_of_ok (h : appendIetfAckFrameAndTypeByte e f w = .ok w') :
    ∃ k ≤ rest.length, w.writeBytes (ackFrameBytes e f first (rest.take k)) = some w' ∧
      getVarInt62Len k = getVarInt62Len rest.length ∧ ackHeaderSize e f first rest.length ≤ w.remaining := by
  have hroom : ackHeaderSize e f first rest.length ≤ w.remaining := by
    by_contra hlt
    exact append_ne_ok he hr (not_le.1 hlt) w' h
  obtain ⟨k, hk, -, hok, hbad⟩ := append_spec he hr hroom
  by_cases hlen : getVarInt62Len k = getVarInt62Len rest.length
  · obtain ⟨v, hv, hwrite⟩ := hok hlen
    obtain rfl : v = w' := Except.ok.inj (hv.symm.trans h)
    exact ⟨k, hk, hwrite, hlen, hroom⟩
  · exact absurd h (hbad hlen w')

end

end

/-- A finite delay of at least `2 ^ 62 - 2 ^ e` microseconds comes back as infinite, and the start of a first
range longer than the largest number is computed before the check that rejects it. -/
theorem ackFrame_codec_counterexample : (∃ f : QuicAckFrame, f.WellFormed ∧ f.ackDelayTime ≠ kInfiniteTimeUs ∧
      ∃ w', appendIetfAckFrameAndTypeByte 3 f (fresh 32) = .ok w' ∧
        ∃ body, readVarInt62 w'.buffer = some (ietfAck, body) ∧
        (processIetfAckFrame .acceptAll 3 ietfAck body).started = some (f.largestAcked, kInfiniteTimeUs)) ∧
      (processIetfAckFrame .acceptAll 3 ietfAck [1, 0, 0, 2]).wraps = [.firstBlockLow] := by
  refine ⟨⟨{ largestAcked := 1, ackDelayTime := 2 ^ 62 - 8, packets := [⟨1, 2⟩] },
    ⟨canonical_singleton (by decide), ?_, ?_, ?_,
    ?_, ?_, ?_⟩, ?_, _, rfl, _, rfl, rfl⟩, rfl⟩ <;> simp [kInfiniteTimeUs]

/-- **The ACK frame codec.** -/
theorem ackFrame_codec (e : Nat) : (∀ f w, f.WellFormed → f.Encodable e → ackFrameSize e f ≤ w.remaining →
      ∃ w', appendIetfAckFrameAndTypeByte e f w = .ok w') ∧
    (∀ f w w', f.WellFormed → appendIetfAckFrameAndTypeByte e f w = .ok w' →
      ∃ k, 1 ≤ k ∧ k ≤ f.packets.length ∧ (ackFrameSize e f ≤ w.remaining → k = f.packets.length) ∧
        ∃ written, w'.buffer = w.buffer ++ written ∧ ∀ tail, ∃ body,
          readVarInt62 (written ++ tail) = some (ackFrameType f, body) ∧
          processIetfAckFrame .acceptAll e (ackFrameType f) body =
            { started := some (f.largestAcked,
                if f.ackDelayTime >>> e <
                  kVarInt62MaxValue >>> e then f.ackDelayTime / 2 ^ e * 2 ^ e else kInfiniteTimeUs)
              ranges := f.packets.reverse.take k
              ended := some (lowestBlock 0 (f.packets.reverse.take k), f.ecnCounters)
              result := .ok tail }) ∧
    ∀ visitor t bytes, Canonical (processIetfAckFrame visitor e t bytes).ranges.reverse ∧
      (∀ r ∈ (processIetfAckFrame visitor e t bytes).ranges, kFirstSendingPacketNumber ≤ r.min) ∧
      ((processIetfAckFrame visitor e t bytes).wraps = [] ∨
        (processIetfAckFrame visitor e t bytes).wraps = [.firstBlockLow] ∧
          (processIetfAckFrame visitor e t bytes).ranges = [] ∧
          ∃ error, (processIetfAckFrame visitor e t bytes).result = .error error) := by
  refine ⟨?_, ?_, ?_⟩
  · intro f w hf he hroom
    obtain ⟨first, rest, hr⟩ := hf.ranges
    obtain ⟨w', hw', -⟩ := append_of_room he hr hroom
    exact ⟨w', hw'⟩
  · intro f w w' hf hok
    obtain ⟨first, rest, hr⟩ := hf.ranges
    have he := encodable_of_ok hf hok
    have hlength := hr.length
    obtain ⟨k, hk, hwrite, hfull⟩ : ∃ k ≤ rest.length, w.writeBytes (ackFrameBytes e f first (rest.take k)) = some w' ∧
        (ackFrameSize e f ≤ w.remaining → k = rest.length) := by
      by_cases hroom : ackFrameSize e f ≤ w.remaining
      · obtain ⟨v, hv, hwrite⟩ := append_of_room he hr hroom
        obtain rfl : v = w' := Except.ok.inj (hv.symm.trans hok)
        exact ⟨rest.length, le_rfl, by rwa [take_length], fun _ => rfl⟩
      · obtain ⟨k, hk, hwrite, -⟩ := written_of_ok he hr hok
        exact ⟨k, hk, hwrite, fun h => absurd h hroom⟩
    refine ⟨k + 1, by omega, by omega, fun h => by rw [hfull h, hlength], _,
      (writeBytes_eq_some.1 hwrite).2.2, fun tail => ?_⟩
    obtain ⟨body, hread, hdecode⟩ := processIetfAckFrame_ackFrameBytes hr he k tail
    refine ⟨body, hread, ?_⟩
    rw [hdecode, ackDelayTime_ackDelayTimeUs, hr.reverse, take_succ_cons, lowestBlock]
  · intro visitor t bytes
    have h := processIetfAckFrame_safe visitor e t bytes
    exact ⟨h.canonical, h.first_le, h.wraps⟩

def gapAckFrame : QuicAckFrame := { largestAcked := 8, ackDelayTime := 21, packets := [⟨1, 3⟩, ⟨5, 9⟩] }

theorem gapAckFrame_wellFormed : gapAckFrame.WellFormed := by
  have hcan : Canonical gapAckFrame.packets :=
    canonical_append.2 ⟨canonical_singleton (i := ⟨1, 3⟩) (by decide), canonical_singleton (by decide), by simp⟩
  refine ⟨hcan, ?_, ?_, ?_, ?_, ?_, ?_⟩ <;> simp [gapAckFrame]

theorem ackFrame_codec_gap : ∃ w', appendIetfAckFrameAndTypeByte 3 gapAckFrame (fresh 8) = .ok w' ∧
    w'.buffer = [2, 8, 2, 1, 3, 1, 1] ∧ ∃ body, readVarInt62 (w'.buffer ++ [7]) = some (ietfAck, body) ∧
      processIetfAckFrame .acceptAll 3 ietfAck body =
        { started := some (8, 16), ranges := [⟨5, 9⟩, ⟨1, 3⟩], ended := some (1, none), result := .ok [7] } := by
  obtain ⟨k, -, -, hall, written, hw, hread⟩ := (ackFrame_codec 3).2.1 _ (fresh 8) _ gapAckFrame_wellFormed rfl
  obtain rfl : k = 2 := hall (by decide)
  refine ⟨_, rfl, rfl, ?_⟩
  rw [hw]
  exact hread [7]

end QuicFramer

end Quictun
