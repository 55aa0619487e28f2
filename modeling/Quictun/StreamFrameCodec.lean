import Quictun.VarInt62

/-!
# STREAM frames of a packet

`AppendIetfFrames()` writes the frames of a packet one after the other. The low bits of a STREAM
frame's type say whether an offset and a length follow the stream id; the last frame of a packet
has no length, its data reaches to the end of the packet. `ProcessIetfFrameData()` reads the
frames back one by one.
-/

namespace Quictun

open List

def kMaxQuicStreamId : Nat := 0xffffffff

def ietfStream : Nat := 0x08
def ietfStreamFrameTypeMask : Nat := 0xfffffffffffffff8
def ietfStreamFrameFinBit : Nat := 0x01
def ietfStreamFrameLenBit : Nat := 0x02
def ietfStreamFrameOffBit : Nat := 0x04

structure QuicStreamFrame where
  streamId : Nat
  fin : Bool
  offset : Nat
  data : Bytes
deriving DecidableEq

namespace QuicFramer

open QuicheDataWriter QuicheDataReader

def getIetfStreamFrameTypeByte (frame : QuicStreamFrame) (lastFrameInPacket : Bool) : Nat :=
  ietfStream ||| (if lastFrameInPacket then 0 else ietfStreamFrameLenBit) |||
    (if frame.offset ≠ 0 then ietfStreamFrameOffBit else 0) ||| (if frame.fin then ietfStreamFrameFinBit else 0)

def getMinStreamFrameSize (streamId offset : Nat) (lastFrameInPacket : Bool) (dataLength : Nat) : Nat :=
  1 + getVarInt62Len streamId + (if lastFrameInPacket then 0 else getVarInt62Len dataLength) +
    (if offset ≠ 0 then getVarInt62Len offset else 0)

def appendStreamOffset (frame : QuicStreamFrame) (w : QuicheDataWriter) : Except String QuicheDataWriter :=
  if frame.offset ≠ 0 then w.writeVarInt62OrError frame.offset "Writing data offset failed." else .ok w

def appendStreamDataLength (frame : QuicStreamFrame) (lastFrameInPacket : Bool) (w : QuicheDataWriter) :
    Except String QuicheDataWriter :=
  if !lastFrameInPacket then w.writeVarInt62OrError frame.data.length "Writing data length failed." else .ok w

/-- `producer` says whether the framer has a data producer, which then writes the data. -/
def appendStreamData (producer : Bool) (frame : QuicStreamFrame) (w : QuicheDataWriter) :
    Except String QuicheDataWriter :=
  if frame.data.length = 0 then .ok w
  else
    match w.writeBytes frame.data with
    | some w => .ok w
    | none => .error (if producer then "Writing frame data from producer failed." else "Writing frame data failed.")

def appendIetfStreamFrame (producer : Bool) (frame : QuicStreamFrame) (lastFrameInPacket : Bool)
    (w : QuicheDataWriter) :
    Except String QuicheDataWriter := do
  let w ← w.writeVarInt62OrError frame.streamId "Writing stream id failed."
  let w ← appendStreamOffset frame w
  let w ← appendStreamDataLength frame lastFrameInPacket w
  appendStreamData producer frame w

/-- The type, then the frame. A type that does not fit leaves the detailed error as it was. -/
def appendFrame (producer : Bool) (frame : QuicStreamFrame) (lastFrameInPacket : Bool) (w : QuicheDataWriter) :
    Except String QuicheDataWriter := do
  let w ← w.writeVarInt62OrError (getIetfStreamFrameTypeByte frame lastFrameInPacket) ""
  appendIetfStreamFrame producer frame lastFrameInPacket w

def appendIetfFrames (producer : Bool) : List QuicStreamFrame → QuicheDataWriter → Except String QuicheDataWriter
  | [], w => .ok w
  | frame :: rest, w => do
    let w ← appendFrame producer frame rest.isEmpty w
    appendIetfFrames producer rest w

def readUint32FromVarint62 (bytes : Bytes) : Except String (Nat × Bytes) :=
  match readVarInt62 bytes with
  | none => .error "Unable to read IETF_STREAM frame stream id/count."
  | some (id, bytes) =>
    if kMaxQuicStreamId < id then .error "Stream id/count of IETF_STREAMframe is too large." else .ok (id, bytes)

def readStreamOffset (frameType : Nat) (bytes : Bytes) : Except String (Nat × Bytes) :=
  if frameType &&& ietfStreamFrameOffBit ≠ 0 then
    match readVarInt62 bytes with
    | none => .error "Unable to read stream data offset."
    | some r => .ok r
  else .ok (0, bytes)

/-- Without a length it is the number of bytes that remain, as a 16-bit number. -/
def readStreamDataLength (frameType : Nat) (bytes : Bytes) : Except String (Nat × Bytes) :=
  if frameType &&& ietfStreamFrameLenBit ≠ 0 then
    match readVarInt62 bytes with
    | none => .error "Unable to read stream data length."
    | some (length, bytes) =>
      if 2 ^ 16 - 1 < length then .error "Stream data length is too large." else .ok (length, bytes)
  else .ok (bytes.length % 2 ^ 16, bytes)

def processIetfStreamFrame (frameType : Nat) (bytes : Bytes) : Except String (QuicStreamFrame × Bytes) := do
  let (streamId, bytes) ← readUint32FromVarint62 bytes
  let (offset, bytes) ← readStreamOffset frameType bytes
  let (dataLength, bytes) ← readStreamDataLength frameType bytes
  match readStringPiece bytes dataLength with
  | none => .error "Unable to read frame data."
  | some (data, bytes) => .ok (⟨streamId, frameType &&& ietfStreamFrameFinBit ≠ 0, offset, data⟩, bytes)

inductive FrameDataEnd
  | done
  | error (detailedError : String)
  | otherFrame (frameType : Nat)
deriving DecidableEq

def processFrames : Nat → Bytes → List QuicStreamFrame × FrameDataEnd
  | 0, _ => ([], .done)
  | fuel + 1, bytes =>
    if bytes.isEmpty then ([], .done)
    else
      match readVarInt62 bytes with
      | none => ([], .error "Unable to read frame type.")
      | some (frameType, rest) =>
        if bytes.length - rest.length ≠ getVarInt62Len frameType then ([], .error "Frame type not minimally encoded.")
        else if frameType &&& ietfStreamFrameTypeMask = ietfStream then
          match processIetfStreamFrame frameType rest with
          | .error error => ([], .error error)
          | .ok (frame, rest) =>
            let later := processFrames fuel rest
            (frame :: later.1, later.2)
        else ([], .otherFrame frameType)

def processIetfFrameData (bytes : Bytes) : List QuicStreamFrame × FrameDataEnd :=
  if bytes.isEmpty then ([], .error "Packet has no frames.") else processFrames bytes.length bytes

end QuicFramer

namespace QuicStreamFrame

/-- Ids have 32 bits, data lengths 16, and the data ends below `2 ^ 62`. -/
structure WellFormed (f : QuicStreamFrame) : Prop where
  streamId_le : f.streamId ≤ kMaxQuicStreamId
  end_lt : f.offset + f.data.length < 2 ^ 62
  length_lt : f.data.length < 2 ^ 16

theorem WellFormed.bounds {f : QuicStreamFrame} (h : f.WellFormed) :
    f.streamId < 2 ^ 62 ∧ f.offset < 2 ^ 62 ∧ f.data.length < 2 ^ 62 := by
  have h1 := h.streamId_le
  have h2 := h.end_lt
  rw [kMaxQuicStreamId] at h1
  omega

end QuicStreamFrame

namespace QuicFramer

open QuicheDataWriter QuicheDataReader

/-! ## Writing -/

def streamFrameBody (f : QuicStreamFrame) (last : Bool) : Bytes :=
  varInt62 f.streamId ++ ((if f.offset ≠ 0 then varInt62 f.offset else []) ++
    ((if last then [] else varInt62 f.data.length) ++ f.data))

def streamFrameBytes (f : QuicStreamFrame) (last : Bool) : Bytes :=
  varInt62 (getIetfStreamFrameTypeByte f last) ++ streamFrameBody f last

def streamFramesBytes : List QuicStreamFrame → Bytes
  | [] => []
  | f :: rest => streamFrameBytes f rest.isEmpty ++ streamFramesBytes rest

variable {f : QuicStreamFrame} {last producer : Bool} {w w' : QuicheDataWriter}

theorem typeByte_bits (f : QuicStreamFrame) (last : Bool) :
    getIetfStreamFrameTypeByte f last < 2 ^ 6 ∧
      getIetfStreamFrameTypeByte f last &&& ietfStreamFrameTypeMask = ietfStream ∧
      (getIetfStreamFrameTypeByte f last &&& ietfStreamFrameOffBit ≠ 0 ↔ f.offset ≠ 0) ∧
      (getIetfStreamFrameTypeByte f last &&& ietfStreamFrameLenBit ≠ 0 ↔ last = false) ∧
      (getIetfStreamFrameTypeByte f last &&& ietfStreamFrameFinBit ≠ 0 ↔ f.fin = true) := by
  unfold getIetfStreamFrameTypeByte
  by_cases ho : f.offset ≠ 0
  · rw [if_pos ho, iff_true_right ho]
    cases last <;> cases f.fin <;> decide
  · rw [if_neg ho, iff_false_right ho]
    cases last <;> cases f.fin <;> decide

theorem length_streamFrameBytes (hf : f.WellFormed) (last : Bool) :
    (streamFrameBytes f last).length =
      getMinStreamFrameSize f.streamId f.offset last f.data.length + f.data.length := by
  obtain ⟨h1, h2, h3⟩ := hf.bounds
  obtain ⟨ht, -⟩ := typeByte_bits f last
  have hone : (varInt62 (getIetfStreamFrameTypeByte f last)).length = 1 := by
    rw [varInt62, if_pos ht]
    rfl
  have hoffset : (if f.offset ≠ 0 then varInt62 f.offset else []).length =
      if f.offset ≠ 0 then getVarInt62Len f.offset else 0 := by
    split
    · exact length_varInt62 h2
    · rfl
  have hlength :
    (if last then [] else varInt62 f.data.length).length = if last then 0 else getVarInt62Len f.data.length := by
    split
    · rfl
    · exact length_varInt62 h3
  rw [streamFrameBytes, streamFrameBody, getMinStreamFrameSize]
  simp only [length_append, hoffset, hlength]
  rw [hone, length_varInt62 h1]
  omega

theorem writeIf_eq_ok {p : Prop} [Decidable p] {v : Nat} (hv : v < 2 ^ 62) {error : String} :
    (if p then w.writeVarInt62OrError v error else .ok w) = .ok w' ↔
      w.writeBytes (if p then varInt62 v else []) = some w' := by
  split
  · rw [writeVarInt62OrError_eq_ok, writeVarInt62_eq_writeBytes w hv]
  · rw [writeBytes_nil, Except.ok.injEq, Option.some.injEq]

theorem appendFrame_eq_ok (hf : f.WellFormed) :
    appendFrame producer f last w = .ok w' ↔ w.writeBytes (streamFrameBytes f last) = some w' := by
  obtain ⟨h1, h2, h3⟩ := hf.bounds
  obtain ⟨ht, -⟩ := typeByte_bits f last
  have hdata : ∀ v : QuicheDataWriter, appendStreamData producer f v = .ok w' ↔ v.writeBytes f.data = some w' := by
    intro v
    unfold appendStreamData
    split
    next hzero =>
      rw [length_eq_zero_iff.1 hzero, writeBytes_nil, Except.ok.injEq, Option.some.injEq]
    · cases v.writeBytes f.data <;> simp
  have hlast : (if last then [] else varInt62 f.data.length) = if (!last) =
    true then varInt62 f.data.length else [] := by
    cases last <;> rfl
  unfold appendFrame appendIetfStreamFrame appendStreamOffset appendStreamDataLength
  rw [streamFrameBytes, streamFrameBody, hlast]
  simp only [bind_eq_ok, writeVarInt62OrError_eq_ok, writeIf_eq_ok h2, writeIf_eq_ok h3, hdata, writeBytes_append,
    Option.bind_eq_some_iff, writeVarInt62_eq_writeBytes _ h1,
    writeVarInt62_eq_writeBytes _ (by omega : getIetfStreamFrameTypeByte f last < 2 ^ 62)]

variable {frames : List QuicStreamFrame}

theorem appendIetfFrames_eq_ok (hf : ∀ f ∈ frames, f.WellFormed) :
    appendIetfFrames producer frames w = .ok w' ↔ w.writeBytes (streamFramesBytes frames) = some w' := by
  induction frames generalizing w with
  | nil => rw [appendIetfFrames, streamFramesBytes, writeBytes_nil, Except.ok.injEq, Option.some.injEq]
  | cons f rest ih =>
    have hrest : ∀ f ∈ rest, f.WellFormed := fun g hg => hf g (mem_cons_of_mem f hg)
    rw [appendIetfFrames, streamFramesBytes, writeBytes_append, bind_eq_ok, Option.bind_eq_some_iff]
    simp only [appendFrame_eq_ok (hf f mem_cons_self), ih hrest]

/-! ## Reading back -/

theorem processIetfStreamFrame_body (hf : f.WellFormed) {tail : Bytes} (htail : last = true → tail = []) :
    processIetfStreamFrame (getIetfStreamFrameTypeByte f last) (streamFrameBody f last ++ tail) = .ok (f, tail) := by
  obtain ⟨h1, h2, h3⟩ := hf.bounds
  obtain ⟨-, -, hoff, hlen, hfin⟩ := typeByte_bits f last
  have hid := hf.streamId_le
  have hl := hf.length_lt
  generalize getIetfStreamFrameTypeByte f last = t at hoff hlen hfin
  rw [streamFrameBody]
  simp only [append_assoc]
  have hread1 : ∀ rest, readUint32FromVarint62 (varInt62 f.streamId ++ rest) = .ok (f.streamId, rest) := by
    intro rest
    rw [readUint32FromVarint62, readVarInt62_varInt62 h1]
    exact if_neg (not_lt.2 hid)
  have hread2 : ∀ rest, readStreamOffset t ((if f.offset ≠ 0 then varInt62 f.offset else []) ++ rest) =
    .ok (f.offset, rest) := by
    intro rest
    unfold readStreamOffset
    by_cases ho : f.offset ≠ 0
    · rw [if_pos (hoff.2 ho), if_pos ho, readVarInt62_varInt62 h2]
    · rw [if_neg (mt hoff.1 ho), if_neg ho, not_not.1 ho]
      rfl
  have hread3 : readStreamDataLength t ((if last then [] else varInt62 f.data.length) ++ (f.data ++ tail)) =
      .ok (f.data.length, f.data ++ tail) := by
    unfold readStreamDataLength
    cases last with
    | true =>
      rw [if_neg (mt hlen.1 (by decide)), htail rfl, if_pos rfl, nil_append, append_nil, Nat.mod_eq_of_lt hl]
    | false =>
      rw [if_pos (hlen.2 rfl), if_neg (by decide), readVarInt62_varInt62 h3]
      exact if_neg (by omega)
  have hfin' : decide (t &&& ietfStreamFrameFinBit ≠ 0) = f.fin := by
    rw [Bool.eq_iff_iff, decide_eq_true_iff]
    exact hfin
  rw [processIetfStreamFrame, hread1]
  simp only [bind, Except.bind, hread2, hread3, readStringPiece_append, hfin']

theorem processFrames_bytes : ∀ {frames : List QuicStreamFrame} {fuel : Nat}, (∀ f ∈ frames, f.WellFormed) →
    (streamFramesBytes frames).length ≤ fuel → processFrames fuel (streamFramesBytes frames) = (frames, .done)
  | [], fuel, _, _ => by cases fuel <;> rfl
  | f :: rest, 0, hf, hfuel => by
    have hsize := length_streamFrameBytes (hf f mem_cons_self) rest.isEmpty
    rw [getMinStreamFrameSize] at hsize
    rw [streamFramesBytes, length_append] at hfuel
    omega
  | f :: rest, fuel + 1, hf, hfuel => by
    obtain ⟨ht, hmask, -⟩ := typeByte_bits f rest.isEmpty
    have hrest : ∀ f ∈ rest, f.WellFormed := fun g hg => hf g (mem_cons_of_mem f hg)
    have htail : rest.isEmpty = true → streamFramesBytes rest = [] := by
      intro h
      rw [isEmpty_iff.1 h, streamFramesBytes]
    have hone : (varInt62 (getIetfStreamFrameTypeByte f rest.isEmpty)).length = 1 := by
      rw [varInt62, if_pos ht]
      rfl
    have hlen : getVarInt62Len (getIetfStreamFrameTypeByte f rest.isEmpty) = 1 := by
      rw [← length_varInt62 (by omega), hone]
    have hread := readVarInt62_varInt62 (by omega : getIetfStreamFrameTypeByte f rest.isEmpty < 2 ^ 62)
      (streamFrameBody f rest.isEmpty ++ streamFramesBytes rest)
    rw [streamFramesBytes, streamFrameBytes, append_assoc] at hfuel ⊢
    rw [length_append, hone, length_append] at hfuel
    have hne : (varInt62 (getIetfStreamFrameTypeByte f rest.isEmpty) ++
        (streamFrameBody f rest.isEmpty ++ streamFramesBytes rest)).isEmpty = false := by
      rw [isEmpty_eq_false_iff_exists_mem, ← length_pos_iff_exists_mem, length_append]
      omega
    rw [processFrames, hne, if_neg Bool.false_ne_true, hread]
    dsimp only
    rw [if_neg (by rw [length_append, hone, hlen]; omega), if_pos hmask,
      processIetfStreamFrame_body (hf f mem_cons_self) htail]
    dsimp only
    rw [processFrames_bytes hrest (by omega)]

/-! ## Any bytes -/

variable {rest bytes : Bytes}

theorem readUint32FromVarint62_ok {id : Nat} (h : readUint32FromVarint62 bytes = .ok (id, rest)) : rest <:+ bytes := by
  unfold readUint32FromVarint62 at h
  cases hr : readVarInt62 bytes with
  | none => simp [hr] at h
  | some r =>
    rw [hr] at h
    dsimp only at h
    split at h <;> cases h
    exact readVarInt62_suffix hr

theorem readStreamOffset_ok {t offset : Nat} (h : readStreamOffset t bytes = .ok (offset, rest)) : rest <:+ bytes := by
  unfold readStreamOffset at h
  split at h
  · cases hr : readVarInt62 bytes with
    | none => simp [hr] at h
    | some r =>
      rw [hr] at h
      cases h
      exact readVarInt62_suffix hr
  · cases h
    exact suffix_refl _

theorem readStreamDataLength_ok {t length : Nat} (h : readStreamDataLength t bytes = .ok (length, rest)) :
    rest <:+ bytes := by
  unfold readStreamDataLength at h
  split at h
  · cases hr : readVarInt62 bytes with
    | none => simp [hr] at h
    | some r =>
      rw [hr] at h
      dsimp only at h
      split at h <;> cases h
      exact readVarInt62_suffix hr
  · cases h
    exact suffix_refl _

theorem processIetfStreamFrame_ok {t : Nat} (h : processIetfStreamFrame t bytes = .ok (f, rest)) :
    f.data ++ rest <:+ bytes := by
  unfold processIetfStreamFrame at h
  obtain ⟨⟨id, b₁⟩, h1, h⟩ := bind_eq_ok.1 h
  obtain ⟨⟨offset, b₂⟩, h2, h⟩ := bind_eq_ok.1 h
  obtain ⟨⟨length, b₃⟩, h3, h⟩ := bind_eq_ok.1 h
  have hsuffix : b₃ <:+ bytes :=
    (readStreamDataLength_ok h3).trans ((readStreamOffset_ok h2).trans (readUint32FromVarint62_ok h1))
  dsimp only at h
  cases hp : readStringPiece b₃ length with
  | none => simp [hp] at h
  | some r =>
    obtain ⟨data, b₄⟩ := r
    obtain ⟨hb, -⟩ := readStringPiece_some hp
    rw [hp] at h
    cases h
    rw [← hb]
    exact hsuffix

theorem processFrames_data : ∀ (fuel : Nat) (bytes : Bytes), ∀ f ∈ (processFrames fuel bytes).1, f.data <:+: bytes
  | 0, _, f, hf => by simp [processFrames] at hf
  | fuel + 1, bytes, f, hf => by
    rw [processFrames] at hf
    split at hf
    · simp at hf
    cases hr : readVarInt62 bytes with
    | none => simp [hr] at hf
    | some r =>
      obtain ⟨t, b⟩ := r
      obtain ⟨-, used, -, rfl⟩ := readVarInt62_some hr
      rw [hr] at hf
      dsimp only at hf
      split at hf
      · simp at hf
      split at hf
      · cases hp : processIetfStreamFrame t b with
        | error error => simp [hp] at hf
        | ok r =>
          obtain ⟨g, rest⟩ := r
          have hsuffix := processIetfStreamFrame_ok hp
          have hb : b <:+: used ++ b := (suffix_append used b).isInfix
          rw [hp] at hf
          rcases mem_cons.1 hf with rfl | hf
          · exact (prefix_append _ rest).isInfix.trans (hsuffix.isInfix.trans hb)
          · have hrest := processFrames_data fuel rest f hf
            exact hrest.trans ((suffix_append _ rest).isInfix.trans (hsuffix.isInfix.trans hb))
      · simp at hf

/-! ## The codec -/

def streamFramesSize : List QuicStreamFrame → Nat
  | [] => 0
  | f :: rest =>
    getMinStreamFrameSize f.streamId f.offset rest.isEmpty f.data.length + f.data.length + streamFramesSize rest

theorem length_streamFramesBytes (hf : ∀ f ∈ frames, f.WellFormed) :
    (streamFramesBytes frames).length = streamFramesSize frames := by
  induction frames with
  | nil => rfl
  | cons f rest ih =>
    rw [streamFramesBytes, streamFramesSize, length_append, length_streamFrameBytes (hf f mem_cons_self),
      ih fun g hg => hf g (mem_cons_of_mem f hg)]

/-- **The STREAM frame codec.** -/
theorem streamFrames_codec (producer : Bool) {frames : List QuicStreamFrame} (hne : frames ≠ [])
    (hf : ∀ f ∈ frames, f.WellFormed) : (∀ f ∈ frames, ∀ last w w', appendFrame producer f last w = .ok w' →
      w'.buffer.length =
        w.buffer.length + (getMinStreamFrameSize f.streamId f.offset last f.data.length + f.data.length)) ∧
    (∀ w, streamFramesSize frames ≤ w.remaining → ∃ w', appendIetfFrames producer frames w = .ok w') ∧
    (∀ w w', appendIetfFrames producer frames w = .ok w' → ∃ written, w'.buffer = w.buffer ++ written ∧
      written.length = streamFramesSize frames ∧ processIetfFrameData written = (frames, .done)) ∧
    ∀ bytes, ∀ f ∈ (processIetfFrameData bytes).1, f.data <:+: bytes := by
  refine ⟨?_, ?_, ?_, ?_⟩
  · intro f hmem last w w' h
    obtain ⟨-, -, hbuf⟩ := writeBytes_eq_some.1 ((appendFrame_eq_ok (hf f hmem)).1 h)
    rw [hbuf, length_append, length_streamFrameBytes (hf f hmem)]
  · intro w hroom
    rw [← length_streamFramesBytes hf] at hroom
    obtain ⟨w', hw'⟩ := exists_writeBytes hroom
    exact ⟨w', (appendIetfFrames_eq_ok hf).2 hw'⟩
  · intro w w' h
    obtain ⟨-, -, hbuf⟩ := writeBytes_eq_some.1 ((appendIetfFrames_eq_ok hf).1 h)
    refine ⟨_, hbuf, length_streamFramesBytes hf, ?_⟩
    have hne' : (streamFramesBytes frames).isEmpty = false := by
      obtain ⟨f, rest, rfl⟩ := exists_cons_of_ne_nil hne
      rw [isEmpty_eq_false_iff_exists_mem, ← length_pos_iff_exists_mem, length_streamFramesBytes hf, streamFramesSize,
        getMinStreamFrameSize]
      omega
    rw [processIetfFrameData, hne', if_neg Bool.false_ne_true]
    exact processFrames_bytes hf le_rfl
  · intro bytes f hmem
    unfold processIetfFrameData at hmem
    split at hmem
    · simp at hmem
    · exact processFrames_data _ bytes f hmem

theorem streamFrames_codec_two : ∃ w', appendIetfFrames true [⟨4, false, 0, [1, 2, 3]⟩, ⟨8, true, 70, []⟩] (fresh 20) =
    .ok w' ∧ ∃ written, w'.buffer = written ∧
        processIetfFrameData written = ([⟨4, false, 0, [1, 2, 3]⟩, ⟨8, true, 70, []⟩], .done) := by
  have hf : ∀ f ∈ [(⟨4, false, 0, [1, 2, 3]⟩ : QuicStreamFrame), ⟨8, true, 70, []⟩], f.WellFormed := by
    intro f hmem
    simp only [mem_cons, not_mem_nil, or_false] at hmem
    rcases hmem with rfl | rfl <;> exact ⟨by decide, by decide, by decide⟩
  obtain ⟨-, hroom, hback, -⟩ := streamFrames_codec true (by simp) hf
  obtain ⟨w', hw'⟩ := hroom (fresh 20) (by decide)
  obtain ⟨written, hbuf, -, hdecode⟩ := hback _ w' hw'
  exact ⟨w', hw', written, hbuf, hdecode⟩

end QuicFramer

end Quictun
