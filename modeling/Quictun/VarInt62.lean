import Quictun.Stream
import Quictun.Word

/-!
# Data writer and reader

`QuicheDataWriter` fills a buffer of fixed capacity, `QuicheDataReader` walks over the bytes of
a packet. Both work in network byte order. Variable-length integers take 1, 2, 4 or 8 bytes,
and the top two bits of the first byte say which.
-/

namespace Quictun

open List Option

def kVarInt62MaxValue : Nat := 0x3fffffffffffffff
def kVarInt62ErrorMask : Nat := 0xc000000000000000
def kVarInt62Mask8Bytes : Nat := 0x3fffffffc0000000
def kVarInt62Mask4Bytes : Nat := 0x000000003fffc000
def kVarInt62Mask2Bytes : Nat := 0x0000000000003fc0

structure QuicheDataWriter where
  capacity : Nat
  buffer : Bytes
  fits : buffer.length ≤ capacity

namespace QuicheDataWriter

def fresh (capacity : Nat) : QuicheDataWriter := ⟨capacity, [], Nat.zero_le capacity⟩

variable (w : QuicheDataWriter)

def remaining : Nat := w.capacity - w.buffer.length

def writeBytes (data : Bytes) : Option QuicheDataWriter :=
  if h : data.length ≤ w.remaining then
    some { w with
      buffer := w.buffer ++ data
      fits := by
        have := w.fits
        rw [remaining] at h
        rw [List.length_append]
        omega }
  else none

/-- A failed write leaves the buffer as it was. -/
def writeVarInt62 (value : Nat) : Option QuicheDataWriter :=
  if value &&& kVarInt62ErrorMask = 0 then
    if value &&& kVarInt62Mask8Bytes ≠ 0 then
      w.writeBytes [.ofNat (((value >>> 56) &&& 0x3f) + 0xc0), .ofNat ((value >>> 48) &&& 0xff),
        .ofNat ((value >>> 40) &&& 0xff), .ofNat ((value >>> 32) &&& 0xff), .ofNat ((value >>> 24) &&& 0xff),
        .ofNat ((value >>> 16) &&& 0xff), .ofNat ((value >>> 8) &&& 0xff), .ofNat (value &&& 0xff)]
    else if value &&& kVarInt62Mask4Bytes ≠ 0 then
      w.writeBytes [.ofNat (((value >>> 24) &&& 0x3f) + 0x80), .ofNat ((value >>> 16) &&& 0xff),
        .ofNat ((value >>> 8) &&& 0xff), .ofNat (value &&& 0xff)]
    else if value &&& kVarInt62Mask2Bytes ≠ 0 then
      w.writeBytes [.ofNat (((value >>> 8) &&& 0x3f) + 0x40), .ofNat (value &&& 0xff)]
    else w.writeBytes [.ofNat (value &&& 0x3f)]
  else none

def writeVarInt62OrError (value : Nat) (error : String) : Except String QuicheDataWriter :=
  match w.writeVarInt62 value with
  | some w => .ok w
  | none => .error error

def getVarInt62Len (value : Nat) : Nat :=
  if value &&& kVarInt62ErrorMask ≠ 0 then 0
  else if value &&& kVarInt62Mask8Bytes ≠ 0 then 8
  else if value &&& kVarInt62Mask4Bytes ≠ 0 then 4
  else if value &&& kVarInt62Mask2Bytes ≠ 0 then 2
  else 1

end QuicheDataWriter

namespace QuicheDataReader

def readVarInt62 : Bytes → Option (Nat × Bytes)
  | [] => none
  | b :: rest =>
    if b.toNat &&& 0xc0 = 0xc0 then
      match rest with
      | b₁ :: b₂ :: b₃ :: b₄ :: b₅ :: b₆ :: b₇ :: rest =>
        some (((b.toNat &&& 0x3f) <<< 56) + (b₁.toNat <<< 48) + (b₂.toNat <<< 40) + (b₃.toNat <<< 32) +
          (b₄.toNat <<< 24) + (b₅.toNat <<< 16) + (b₆.toNat <<< 8) + b₇.toNat, rest)
      | _ => none
    else if b.toNat &&& 0xc0 = 0x80 then
      match rest with
      | b₁ :: b₂ :: b₃ :: rest =>
        some (((b.toNat &&& 0x3f) <<< 24) + (b₁.toNat <<< 16) + (b₂.toNat <<< 8) + b₃.toNat, rest)
      | _ => none
    else if b.toNat &&& 0xc0 = 0x40 then
      match rest with
      | b₁ :: rest => some (((b.toNat &&& 0x3f) <<< 8) + b₁.toNat, rest)
      | _ => none
    else some (b.toNat &&& 0x3f, rest)

def readStringPiece (bytes : Bytes) (size : Nat) : Option (Bytes × Bytes) :=
  if size ≤ bytes.length then some (bytes.take size, bytes.drop size) else none

end QuicheDataReader

/-! ## The wire format -/

def varInt62 (value : Nat) : Bytes :=
  if value < 2 ^ 6 then [.ofNat value]
  else if value < 2 ^ 14 then [.ofNat (value / 2 ^ 8 + 0x40), .ofNat value]
  else if value < 2 ^ 30 then
    [.ofNat (value / 2 ^ 24 + 0x80), .ofNat (value / 2 ^ 16), .ofNat (value / 2 ^ 8), .ofNat value]
  else
    [.ofNat (value / 2 ^ 56 + 0xc0), .ofNat (value / 2 ^ 48), .ofNat (value / 2 ^ 40), .ofNat (value / 2 ^ 32),
      .ofNat (value / 2 ^ 24), .ofNat (value / 2 ^ 16), .ofNat (value / 2 ^ 8), .ofNat value]

namespace VarInt62
variable {v : Nat}

theorem errorMask_eq_zero (h : v < 2 ^ 64) : v &&& kVarInt62ErrorMask = 0 ↔ v < 2 ^ 62 :=
  Word.and_bits_eq_zero (i := 62) (j := 64) (by decide) h

theorem mask8Bytes_eq_zero (h : v < 2 ^ 62) : v &&& kVarInt62Mask8Bytes = 0 ↔ v < 2 ^ 30 :=
  Word.and_bits_eq_zero (i := 30) (j := 62) (by decide) h

theorem mask4Bytes_eq_zero (h : v < 2 ^ 30) : v &&& kVarInt62Mask4Bytes = 0 ↔ v < 2 ^ 14 :=
  Word.and_bits_eq_zero (i := 14) (j := 30) (by decide) h

theorem mask2Bytes_eq_zero (h : v < 2 ^ 14) : v &&& kVarInt62Mask2Bytes = 0 ↔ v < 2 ^ 6 :=
  Word.and_bits_eq_zero (i := 6) (j := 14) (by decide) h

theorem ofNat_and_ff (n : Nat) : UInt8.ofNat (n &&& 0xff) = UInt8.ofNat n := by
  rw [Nat.and_two_pow_sub_one_eq_mod n 8]
  exact UInt8.toNat_inj.1 (by simp)

theorem and_3f (n : Nat) : n &&& 0x3f = n % 2 ^ 6 := Nat.and_two_pow_sub_one_eq_mod n 6

theorem and_c0 (n : Nat) : n &&& 0xc0 = n / 2 ^ 6 % 4 * 2 ^ 6 := Word.and_bits n (i := 6) (j := 8) (by decide)

theorem firstByte {n k : Nat} (hn : n < 2 ^ 6) (hk : k < 4) :
    (UInt8.ofNat (n + k * 2 ^ 6)).toNat &&& 0xc0 = k * 2 ^ 6 ∧ (UInt8.ofNat (n + k * 2 ^ 6)).toNat &&& 0x3f = n := by
  rw [and_c0, and_3f, UInt8.toNat_ofNat']
  omega

end VarInt62

open VarInt62

namespace QuicheDataWriter
variable {v : Nat} {w w' : QuicheDataWriter} {a b : Bytes}

theorem writeVarInt62_eq (w : QuicheDataWriter) (h : v < 2 ^ 64) :
    w.writeVarInt62 v = if v < 2 ^ 62 then w.writeBytes (varInt62 v) else none := by
  unfold writeVarInt62 varInt62
  by_cases h62 : v < 2 ^ 62
  · rw [if_pos ((errorMask_eq_zero h).2 h62), if_pos h62]
    by_cases h30 : v < 2 ^ 30
    · rw [if_neg (not_not.2 ((mask8Bytes_eq_zero h62).2 h30))]
      by_cases h14 : v < 2 ^ 14
      · rw [if_neg (not_not.2 ((mask4Bytes_eq_zero h30).2 h14))]
        by_cases h6 : v < 2 ^ 6
        · rw [if_neg (not_not.2 ((mask2Bytes_eq_zero h14).2 h6)), if_pos h6, and_3f, Nat.mod_eq_of_lt h6]
        · rw [if_pos (mt (mask2Bytes_eq_zero h14).1 h6), if_neg h6, if_pos h14, and_3f, ofNat_and_ff,
            Nat.shiftRight_eq_div_pow, Nat.mod_eq_of_lt (by omega)]
      · rw [if_pos (mt (mask4Bytes_eq_zero h30).1 h14), if_neg (by omega), if_neg h14, if_pos h30]
        simp only [and_3f, ofNat_and_ff, Nat.shiftRight_eq_div_pow]
        rw [Nat.mod_eq_of_lt (by omega : v / 2 ^ 24 < 2 ^ 6)]
    · rw [if_pos (mt (mask8Bytes_eq_zero h62).1 h30), if_neg (by omega), if_neg (by omega), if_neg h30]
      simp only [and_3f, ofNat_and_ff, Nat.shiftRight_eq_div_pow]
      rw [Nat.mod_eq_of_lt (by omega : v / 2 ^ 56 < 2 ^ 6)]
  · rw [if_neg (mt (errorMask_eq_zero h).1 h62), if_neg h62]

theorem length_varInt62 (h : v < 2 ^ 62) : (varInt62 v).length = getVarInt62Len v := by
  unfold getVarInt62Len varInt62
  rw [if_neg (not_not.2 ((errorMask_eq_zero (by omega)).2 h))]
  by_cases h30 : v < 2 ^ 30
  · rw [if_neg (not_not.2 ((mask8Bytes_eq_zero h).2 h30))]
    by_cases h14 : v < 2 ^ 14
    · rw [if_neg (not_not.2 ((mask4Bytes_eq_zero h30).2 h14))]
      by_cases h6 : v < 2 ^ 6
      · rw [if_neg (not_not.2 ((mask2Bytes_eq_zero h14).2 h6)), if_pos h6, length_singleton]
      · rw [if_pos (mt (mask2Bytes_eq_zero h14).1 h6), if_neg h6, if_pos h14]
        rfl
    · rw [if_pos (mt (mask4Bytes_eq_zero h30).1 h14), if_neg (by omega), if_neg h14, if_pos h30]
      rfl
  · rw [if_pos (mt (mask8Bytes_eq_zero h).1 h30), if_neg (by omega), if_neg (by omega), if_neg h30]
    rfl

theorem writeBytes_eq_some : w.writeBytes a = some w' ↔
    a.length ≤ w.remaining ∧ w'.capacity = w.capacity ∧ w'.buffer = w.buffer ++ a := by
  unfold writeBytes
  by_cases h : a.length ≤ w.remaining
  · rw [dif_pos h, some.injEq]
    constructor
    · rintro rfl
      exact ⟨h, rfl, rfl⟩
    · rintro ⟨-, hc, hb⟩
      cases w'
      subst hc hb
      rfl
  · rw [dif_neg h]
    constructor
    · intro h'
      cases h'
    · rintro ⟨h', -⟩
      exact absurd h' h

theorem writeBytes_nil (w : QuicheDataWriter) : w.writeBytes [] = some w := by
  rw [writeBytes_eq_some]
  simp

theorem exists_writeBytes (h : a.length ≤ w.remaining) : ∃ w', w.writeBytes a = some w' := by
  rw [writeBytes, dif_pos h]
  exact ⟨_, rfl⟩

theorem remaining_of_write (h : w.writeBytes a = some w') : w'.remaining = w.remaining - a.length := by
  obtain ⟨-, hc, hb⟩ := writeBytes_eq_some.1 h
  rw [remaining, remaining, hc, hb, length_append]
  omega

theorem writeBytes_append (w : QuicheDataWriter) (a b : Bytes) :
    w.writeBytes (a ++ b) = (w.writeBytes a).bind (·.writeBytes b) := by
  cases h : w.writeBytes a with
  | none =>
    have : ¬ a.length ≤ w.remaining := by
      intro hle
      rw [writeBytes, dif_pos hle] at h
      cases h
    rw [writeBytes, dif_neg (by rw [length_append]; omega), bind_none]
  | some w₁ =>
    obtain ⟨hle, hc, hb⟩ := writeBytes_eq_some.1 h
    have hr := remaining_of_write h
    rw [bind_some]
    apply ext
    intro w'
    rw [writeBytes_eq_some, writeBytes_eq_some, hr, hc, hb, length_append, append_assoc]
    exact and_congr_left fun _ => by omega

theorem writeVarInt62_eq_writeBytes (w : QuicheDataWriter) (h : v < 2 ^ 62) :
    w.writeVarInt62 v = w.writeBytes (varInt62 v) := by
  rw [writeVarInt62_eq w (by omega), if_pos h]

theorem lt_of_writeVarInt62 (hv : v < 2 ^ 64) (h : w.writeVarInt62 v = some w') : v < 2 ^ 62 := by
  rw [writeVarInt62_eq w hv] at h
  exact (ite_none_right_eq_some.1 h).1

theorem writeVarInt62OrError_eq_ok {error : String} : w.writeVarInt62OrError v error = .ok w' ↔
    w.writeVarInt62 v = some w' := by
  unfold writeVarInt62OrError
  cases w.writeVarInt62 v <;> simp

theorem bind_eq_ok {α β : Type} {x : Except String α} {g : α → Except String β} {b : β} :
    (x >>= g) = .ok b ↔ ∃ a, x = .ok a ∧ g a = .ok b := by
  cases x <;> simp [bind, Except.bind]

end QuicheDataWriter

namespace QuicheDataReader
variable {v : Nat} {bytes rest : Bytes}

theorem readVarInt62_varInt62 (h : v < 2 ^ 62) (rest : Bytes) : readVarInt62 (varInt62 v ++ rest) = some (v, rest) := by
  unfold varInt62
  by_cases h6 : v < 2 ^ 6
  · obtain ⟨hc, hf⟩ := firstByte (k := 0) h6 (by decide)
    rw [if_pos h6, singleton_append]
    generalize UInt8.ofNat v = b at hc hf
    simp [readVarInt62, hc, hf]
  rw [if_neg h6]
  by_cases h14 : v < 2 ^ 14
  · obtain ⟨hc, hf⟩ := firstByte (n := v / 2 ^ 8) (k := 1) (by omega) (by decide)
    rw [if_pos h14, cons_append, singleton_append]
    change UInt8.toNat (.ofNat (v / 2 ^ 8 + 0x40)) &&& _ = _ at hc hf
    generalize UInt8.ofNat (v / 2 ^ 8 + 0x40) = b at hc hf
    simp only [readVarInt62, hc, hf, UInt8.toNat_ofNat', Nat.shiftLeft_eq]
    rw [if_neg (by decide), if_neg (by decide), if_pos (by decide)]
    simp only [some.injEq, Prod.mk.injEq, and_true]
    omega
  rw [if_neg h14]
  by_cases h30 : v < 2 ^ 30
  · obtain ⟨hc, hf⟩ := firstByte (n := v / 2 ^ 24) (k := 2) (by omega) (by decide)
    rw [if_pos h30]
    change UInt8.toNat (.ofNat (v / 2 ^ 24 + 0x80)) &&& _ = _ at hc hf
    generalize UInt8.ofNat (v / 2 ^ 24 + 0x80) = b at hc hf
    simp only [cons_append, nil_append, readVarInt62, hc, hf, UInt8.toNat_ofNat', Nat.shiftLeft_eq]
    rw [if_neg (by decide), if_pos (by decide)]
    simp only [some.injEq, Prod.mk.injEq, and_true]
    omega
  · obtain ⟨hc, hf⟩ := firstByte (n := v / 2 ^ 56) (k := 3) (by omega) (by decide)
    rw [if_neg h30]
    change UInt8.toNat (.ofNat (v / 2 ^ 56 + 0xc0)) &&& _ = _ at hc hf
    generalize UInt8.ofNat (v / 2 ^ 56 + 0xc0) = b at hc hf
    simp only [cons_append, nil_append, readVarInt62, hc, hf, UInt8.toNat_ofNat', Nat.shiftLeft_eq]
    rw [if_pos (by decide)]
    simp only [some.injEq, Prod.mk.injEq, and_true]
    omega

theorem readVarInt62_some (h : readVarInt62 bytes = some (v, rest)) :
    v < 2 ^ 62 ∧ ∃ used ≠ [], bytes = used ++ rest := by
  unfold readVarInt62 at h
  split at h
  · cases h
  rename_i b tail
  have hb : b.toNat &&& 0x3f < 2 ^ 6 := by
    rw [and_3f]
    omega
  simp only [Nat.shiftLeft_eq] at h
  split_ifs at h
  · split at h
    next b₁ b₂ b₃ b₄ b₅ b₆ b₇ r =>
      cases h
      refine ⟨?_, [b, b₁, b₂, b₃, b₄, b₅, b₆, b₇], cons_ne_nil _ _, rfl⟩
      have h1 := b₁.toNat_lt
      have h2 := b₂.toNat_lt
      have h3 := b₃.toNat_lt
      have h4 := b₄.toNat_lt
      have h5 := b₅.toNat_lt
      have h6 := b₆.toNat_lt
      have h7 := b₇.toNat_lt
      omega
    · cases h
  · split at h
    next b₁ b₂ b₃ r =>
      cases h
      refine ⟨?_, [b, b₁, b₂, b₃], cons_ne_nil _ _, rfl⟩
      have h1 := b₁.toNat_lt
      have h2 := b₂.toNat_lt
      have h3 := b₃.toNat_lt
      omega
    · cases h
  · split at h
    next b₁ r =>
      cases h
      refine ⟨?_, [b, b₁], cons_ne_nil _ _, rfl⟩
      have h1 := b₁.toNat_lt
      omega
    · cases h
  · cases h
    exact ⟨by omega, [b], cons_ne_nil _ _, rfl⟩

theorem readVarInt62_suffix (h : readVarInt62 bytes = some (v, rest)) : rest <:+ bytes := by
  obtain ⟨-, used, -, rfl⟩ := readVarInt62_some h
  exact suffix_append used rest

theorem readStringPiece_append (a b : Bytes) : readStringPiece (a ++ b) a.length = some (a, b) := by
  rw [readStringPiece, if_pos (by simp), take_left, drop_left]

theorem readStringPiece_some {size : Nat} {data : Bytes} (h : readStringPiece bytes size = some (data, rest)) :
    bytes = data ++ rest ∧ data.length = size := by
  obtain ⟨hle, ⟨⟩⟩ := ite_none_right_eq_some.1 h
  exact ⟨(take_append_drop size bytes).symm, length_take_of_le hle⟩

end QuicheDataReader

end Quictun
