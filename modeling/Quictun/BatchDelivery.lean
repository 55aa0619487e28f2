import Quictun.BatchWriter

/-!
# Batches on their way to the kernel

The buffered packets lie one behind the other from the start of the buffer on, and they are such that
the kernel cuts the message of the batch where one packet ends and the next begins. Over any run of
calls, what the kernel has taken and what is buffered are the packets the writer has accepted.
-/

namespace Quictun

open List

variable {Ip Addr : Type}

/-! ## Memory -/

section
variable {mem : Nat → UInt8} {pos n m : Nat} {data : Bytes}

@[simp] theorem length_load : (load mem pos n).length = n := by simp [load]

theorem load_store (mem : Nat → UInt8) (pos : Nat) (data : Bytes) :
    load (store mem pos data) pos data.length = data := by
  apply ext_getElem
  · simp
  · intro i h1 h2
    simp [load, store, h2]

theorem load_store_before (h : pos + n ≤ m) : load (store mem m data) pos n = load mem pos n := by
  apply ext_getElem
  · simp
  · intro i h1 h2
    have hi : i < n := by simpa using h1
    have hlt : ¬ m ≤ pos + i := by omega
    simp [load, store, hlt]

theorem load_add (mem : Nat → UInt8) (pos n m : Nat) :
    load mem pos (n + m) = load mem pos n ++ load mem (pos + n) m := by
  simp [load, range_add, add_assoc]

end

/-! ## Buffered packets -/

namespace QuicBatchWriterBuffer

def Contiguous : Nat → List (BufferedWrite Ip Addr) → Prop
  | _, [] => True
  | n, w :: ws => w.buffer = n ∧ Contiguous (n + w.bufLen) ws

def totalLen (ws : List (BufferedWrite Ip Addr)) : Nat := (ws.map BufferedWrite.bufLen).sum

variable {ws : List (BufferedWrite Ip Addr)} {w : BufferedWrite Ip Addr} {b b' : QuicBatchWriterBuffer Ip Addr}
  {n : Nat}

theorem totalLen_cons : totalLen (w :: ws) = w.bufLen + totalLen ws := by simp [totalLen]

theorem totalLen_concat : totalLen (ws ++ [w]) = totalLen ws + w.bufLen := by simp [totalLen]

theorem contiguous_concat : Contiguous n (ws ++ [w]) ↔ Contiguous n ws ∧ w.buffer = n + totalLen ws := by
  induction ws generalizing n with
  | nil => simp [Contiguous, totalLen]
  | cons v ws ih =>
    rw [cons_append, Contiguous, Contiguous, ih, totalLen_cons]
    constructor
    · rintro ⟨h1, h2, h3⟩
      exact ⟨⟨h1, h2⟩, by omega⟩
    · rintro ⟨⟨h1, h2⟩, h3⟩
      exact ⟨h1, h2, by omega⟩

theorem Contiguous.end_le (h : Contiguous n ws) (hw : w ∈ ws) : w.buffer + w.bufLen ≤ n + totalLen ws := by
  induction ws generalizing n with
  | nil => cases hw
  | cons v ws ih =>
    obtain ⟨h1, h2⟩ := h
    rw [totalLen_cons]
    rcases mem_cons.1 hw with rfl | hw
    · omega
    · have := ih h2 hw
      omega

theorem sizeInUse_eq (h : Contiguous 0 b.bufferedWrites) : b.sizeInUse = totalLen b.bufferedWrites := by
  unfold sizeInUse
  rcases eq_nil_or_concat b.bufferedWrites with hnil | ⟨ws, w, hws⟩
  · simp [hnil, totalLen]
  · rw [concat_eq_append] at hws
    rw [hws] at h ⊢
    have := (contiguous_concat.1 h).2
    simp only [getLast?_concat, totalLen_concat]
    omega

theorem load_contiguous (mem : Nat → UInt8) (h : Contiguous n ws) :
    load mem n (totalLen ws) = (ws.map fun w => load mem w.buffer w.bufLen).flatten := by
  induction ws generalizing n with
  | nil => simp [totalLen, load]
  | cons v ws ih =>
    obtain ⟨h1, h2⟩ := h
    rw [totalLen_cons, load_add, ih h2, map_cons, flatten_cons, h1]

def Fits : PacketSource → Prop
  | .external _ => True
  | .internal pos len => pos + len ≤ kBufferSize

instance : DecidablePred Fits := fun packet =>
  match packet with
  | .external _ => isTrue trivial
  | .internal pos len => inferInstanceAs (Decidable (pos + len ≤ kBufferSize))

variable {packet : PacketSource} {selfAddress : Ip} {peerAddress : Addr} {params : QuicPacketWriterParams}
  {releaseTime : Nat}

theorem placePacket_eq_some (hfits : Fits packet) (mem : Nat → UInt8) (next : Nat) :
    ∃ mem', placePacket mem next packet = some mem' ∧
    load mem' next packet.bufLen = packet.data mem ∧ ∀ pos len, pos + len ≤ next →
      load mem' pos len = load mem pos len := by
  cases packet with
  | external data => exact ⟨_, rfl, load_store mem next data, fun pos len h => load_store_before h⟩
  | internal pos len =>
    by_cases hin : pos = next
    · exact ⟨mem, if_pos hin, by rw [PacketSource.bufLen, PacketSource.data, hin], fun _ _ _ => rfl⟩
    · refine ⟨store mem next (load mem pos len), ?_, ?_, fun _ _ h => load_store_before h⟩
      · have hle : pos + len ≤ kBufferSize := hfits
        rw [placePacket, if_neg hin, if_pos hle]
      · have := load_store mem next (load mem pos len)
        rwa [length_load] at this

theorem pushBufferedWrite_spec (hc : Contiguous 0 b.bufferedWrites) (hfits : Fits packet)
    (h : b.pushBufferedWrite packet selfAddress peerAddress params releaseTime = some b') :
    b'.bufferedWrites =
      b.bufferedWrites ++ [⟨b.sizeInUse, packet.bufLen, selfAddress, peerAddress, params, releaseTime⟩] ∧
      b'.packets = b.packets ++ [⟨packet.data b.mem, selfAddress, peerAddress, params.ecnCodepoint⟩] := by
  unfold pushBufferedWrite getNextWriteLocation at h
  split at h
  · cases h
  rename_i next hnext
  obtain ⟨-, rfl⟩ : _ ∧ b.sizeInUse = next := by simpa using (Option.ite_none_left_eq_some.1 hnext)
  obtain ⟨mem', hplace, hload, hkeep⟩ := placePacket_eq_some hfits b.mem b.sizeInUse
  rw [hplace] at h
  cases h
  refine ⟨rfl, ?_⟩
  simp only [packets, map_append, map_cons, map_nil, hload]
  congr 1
  apply map_congr_left
  intro w hw
  have hend := hc.end_le hw
  rw [hkeep _ _ (by rw [sizeInUse_eq hc]; omega)]

theorem pushBufferedWrite_empty (he : b.bufferedWrites = []) (hfits : Fits packet) (selfAddress : Ip)
    (peerAddress : Addr)
    (params : QuicPacketWriterParams) (releaseTime : Nat) :
    ∃ b', b.pushBufferedWrite packet selfAddress peerAddress params releaseTime = some b' := by
  have hnext : b.getNextWriteLocation = some 0 := by
    rw [getNextWriteLocation, sizeInUse, he]
    rfl
  obtain ⟨mem', hplace, -⟩ := placePacket_eq_some hfits b.mem 0
  rw [pushBufferedWrite, hnext]
  dsimp only
  rw [hplace]
  exact ⟨_, rfl⟩

/-! ## Batches -/

structure Uniform (first : BufferedWrite Ip Addr) (ws : List (BufferedWrite Ip Addr)) : Prop where
  same : ∀ w ∈ ws, w.selfAddress = first.selfAddress ∧ w.peerAddress = first.peerAddress ∧
    w.params.ecnCodepoint = first.params.ecnCodepoint
  len_le : ∀ w ∈ ws, w.bufLen ≤ first.bufLen
  len_eq : ∀ w ∈ ws.dropLast, w.bufLen = first.bufLen
  count_le : ws.length ≤ QuicGsoBatchWriter.maxSegments first.bufLen
  size_le : totalLen ws ≤ kMaxGsoPacketSize

structure Inv (b : QuicBatchWriterBuffer Ip Addr) : Prop where
  contiguous : Contiguous 0 b.bufferedWrites
  uniform : ∀ first, b.bufferedWrites.head? = some first → Uniform first b.bufferedWrites

theorem inv_empty (he : b.bufferedWrites = []) : b.Inv := by
  constructor
  · rw [he]
    exact trivial
  · rw [he]
    simp

theorem uniform_singleton (hw : w.bufLen ≤ kMaxOutgoingPacketSize) : Uniform w [w] := by
  refine ⟨by simp, by simp, by simp, ?_, ?_⟩
  · rw [QuicGsoBatchWriter.maxSegments, length_singleton]
    split <;> decide
  · rw [kMaxOutgoingPacketSize] at hw
    rw [kMaxGsoPacketSize, totalLen, map_singleton, sum_singleton]
    omega

theorem Uniform.concat {first last : BufferedWrite Ip Addr} (h : Uniform first ws) (hlast : ws.getLast? = some last)
    (hcount : ws.length < QuicGsoBatchWriter.maxSegments first.bufLen) (hself : last.selfAddress = w.selfAddress)
    (hpeer : last.peerAddress = w.peerAddress) (hsize : totalLen ws + w.bufLen ≤ kMaxGsoPacketSize)
    (hequal : first.bufLen = last.bufLen) (hlen : w.bufLen ≤ first.bufLen)
    (hecn : first.params.ecnCodepoint = w.params.ecnCodepoint) : Uniform first (ws ++ [w]) := by
  obtain ⟨init, rfl⟩ := getLast?_eq_some_iff.1 hlast
  have hsame := h.same last (mem_append_right _ (mem_singleton_self last))
  refine ⟨?_, ?_, ?_, ?_, ?_⟩
  · intro v hv
    rcases mem_append.1 hv with hv | hv
    · exact h.same v hv
    · rw [mem_singleton.1 hv, ← hself, ← hpeer, ← hecn]
      exact ⟨hsame.1, hsame.2.1, rfl⟩
  · intro v hv
    rcases mem_append.1 hv with hv | hv
    · exact h.len_le v hv
    · rw [mem_singleton.1 hv]
      exact hlen
  · intro v hv
    rw [dropLast_concat] at hv
    rcases mem_append.1 hv with hv | hv
    · apply h.len_eq
      rwa [dropLast_concat]
    · rw [mem_singleton.1 hv, hequal]
  · rw [length_append, length_singleton]
    omega
  · rw [totalLen_concat]
    exact hsize

end QuicBatchWriterBuffer

/-! ## What the kernel sends -/

def cut (size : Nat) : Nat → Bytes → List Bytes
  | 0, _ => []
  | fuel + 1, bytes => if bytes.isEmpty then [] else bytes.take size :: cut size fuel (bytes.drop size)

def GsoMessage.segments (m : GsoMessage Ip Addr) : List Bytes :=
  if m.gsoSize = 0 then [m.bytes] else cut m.gsoSize m.bytes.length m.bytes

theorem cut_flatten {size : Nat} : ∀ {ps : List Bytes} {fuel : Nat}, (∀ p ∈ ps, p ≠ []) → (∀ p ∈ ps, p.length ≤ size) →
    (∀ p ∈ ps.dropLast, p.length = size) → ps.flatten.length ≤ fuel → cut size fuel ps.flatten = ps
  | [], fuel, _, _, _, _ => by cases fuel <;> rfl
  | p :: ps, 0, hne, _, _, hfuel => by
    have hp : 0 < p.length := length_pos_iff.2 (hne p mem_cons_self)
    rw [flatten_cons, length_append] at hfuel
    omega
  | p :: ps, fuel + 1, hne, hle, heq, hfuel => by
    have hp : 0 < p.length := length_pos_iff.2 (hne p mem_cons_self)
    have hpne : (p ++ ps.flatten).isEmpty = false := by
      rw [isEmpty_eq_false_iff_exists_mem, ← length_pos_iff_exists_mem, length_append]
      omega
    rw [flatten_cons, length_append] at hfuel
    rw [flatten_cons, cut, hpne, if_neg Bool.false_ne_true]
    cases ps with
    | nil =>
      have hsize := hle p mem_cons_self
      rw [flatten_nil, append_nil, take_of_length_le hsize, drop_of_length_le hsize]
      cases fuel <;> rfl
    | cons q ps =>
      have hsize : p.length = size := heq p (by rw [dropLast_cons_of_ne_nil (cons_ne_nil q ps)]; exact mem_cons_self)
      rw [← hsize, take_left, drop_left, hsize]
      congr 1
      refine cut_flatten (fun r hr => hne r (mem_cons_of_mem p hr)) (fun r hr => hle r (mem_cons_of_mem p hr)) ?_
        (by omega)
      intro r hr
      apply heq
      rw [dropLast_cons_of_ne_nil (cons_ne_nil q ps)]
      exact mem_cons_of_mem p hr

namespace GsoBatch

/-- A batch that the kernel may send: every packet of it goes where it should, within the limits, and is
cut out as it was. -/
structure Ok (batch : GsoBatch Ip Addr) : Prop where
  same : ∀ p ∈ batch.packets, p.selfAddress = batch.message.selfAddress ∧ p.peerAddress = batch.message.peerAddress ∧
    p.ecnCodepoint = batch.message.ecnCodepoint
  lengths : ∃ size, (∀ p ∈ batch.packets.dropLast, p.data.length = size) ∧ (∀ p ∈ batch.packets, p.data.length ≤ size) ∧
    batch.packets.length ≤ QuicGsoBatchWriter.maxSegments size
  bytes : batch.message.bytes = (batch.packets.map OutgoingPacket.data).flatten
  size_le : batch.message.bytes.length ≤ kMaxGsoPacketSize
  segments : (∀ p ∈ batch.packets, p.data ≠ []) → batch.message.segments = batch.packets.map OutgoingPacket.data

end GsoBatch

namespace QuicGsoBatchWriter

open QuicBatchWriterBuffer

variable {b : QuicBatchWriterBuffer Ip Addr} {first : BufferedWrite Ip Addr}

theorem batch_ok (h : b.Inv) (hfirst : b.bufferedWrites.head? = some first) : (batch b first).Ok := by
  have hu := h.uniform first hfirst
  have hsize := sizeInUse_eq h.contiguous
  have hzero : first.buffer = 0 := by
    obtain ⟨ws, hws⟩ := head?_eq_some_iff.1 hfirst
    have hc := h.contiguous
    rw [hws] at hc
    exact hc.1
  have hbytes : (batch b first).message.bytes = ((batch b first).packets.map OutgoingPacket.data).flatten := by
    rw [batch, packets]
    rw [hzero, hsize, load_contiguous b.mem h.contiguous, map_map]
    rfl
  have hdrop : ∀ p ∈ (batch b first).packets.dropLast, p.data.length = first.bufLen := by
    intro p hp
    rw [batch, packets, dropLast_eq_take, ← map_take, length_map, ← dropLast_eq_take] at hp
    obtain ⟨w, hw, rfl⟩ := mem_map.1 hp
    rw [length_load]
    exact hu.len_eq w hw
  have hle : ∀ p ∈ (batch b first).packets, p.data.length ≤ first.bufLen := by
    intro p hp
    obtain ⟨w, hw, rfl⟩ := mem_map.1 hp
    rw [length_load]
    exact hu.len_le w hw
  refine ⟨?_, ⟨first.bufLen, hdrop, hle, ?_⟩, hbytes, ?_, ?_⟩
  · intro p hp
    obtain ⟨w, hw, rfl⟩ := mem_map.1 hp
    exact hu.same w hw
  · rw [batch, packets, length_map]
    exact hu.count_le
  · rw [batch]
    rw [length_load, hsize]
    exact hu.size_le
  · intro hne
    rw [GsoMessage.segments]
    by_cases hone : 1 < b.bufferedWrites.length
    · have hgso : (batch b first).message.gsoSize = first.bufLen := if_pos hone
      have hpos : first.bufLen ≠ 0 := by
        have hmem : first ∈ b.bufferedWrites := mem_of_head? hfirst
        have := hne _ (mem_map_of_mem hmem)
        rw [← length_pos_iff, length_load] at this
        omega
      rw [hgso, if_neg hpos, hbytes]
      refine cut_flatten ?_ ?_ ?_ le_rfl
      · intro d hd
        obtain ⟨p, hp, rfl⟩ := mem_map.1 hd
        exact hne p hp
      · intro d hd
        obtain ⟨p, hp, rfl⟩ := mem_map.1 hd
        exact hle p hp
      · intro d hd
        rw [dropLast_eq_take, ← map_take, length_map, ← dropLast_eq_take] at hd
        obtain ⟨p, hp, rfl⟩ := mem_map.1 hd
        exact hdrop p hp
    · obtain ⟨ws, hws⟩ := head?_eq_some_iff.1 hfirst
      have hnil : ws = [] := by
        rw [hws, length_cons] at hone
        exact length_eq_zero_iff.1 (by omega)
      have hgso : (batch b first).message.gsoSize = 0 := if_neg hone
      rw [if_pos hgso, hbytes, batch, packets, hws, hnil]
      simp

/-! ## One call -/

variable {kernel : SendmsgResult}

theorem checkedFlush_ok (h : b.Inv) (hok : (checkedFlush b kernel).2.1.status = .ok) :
    (checkedFlush b kernel).1.bufferedWrites = [] ∧ (checkedFlush b kernel).1.mem = b.mem ∧
      (∀ batch ∈ (checkedFlush b kernel).2.2, batch.Ok) ∧
      (checkedFlush b kernel).2.2.toList.flatMap GsoBatch.packets = b.packets := by
  unfold checkedFlush at hok ⊢
  cases hfirst : b.bufferedWrites.head? with
  | none =>
    have hnil := head?_eq_none_iff.1 hfirst
    refine ⟨hnil, rfl, by simp, ?_⟩
    rw [packets, hnil]
    rfl
  | some first =>
    rw [hfirst] at hok
    cases kernel with
    | ok =>
      refine ⟨?_, ?_, ?_, ?_⟩
      · rw [popBufferedWrite, drop_length]
      · rw [popBufferedWrite, drop_length]
      · intro batch hbatch
        cases hbatch
        exact batch_ok h hfirst
      · simp [batch]
    | blocked | error => cases hok

theorem checkedFlush_ne_ok (hok : (checkedFlush b kernel).2.1.status ≠ .ok) : (checkedFlush b kernel).1 = b ∧
      ((checkedFlush b kernel).2.1.status = .blocked ∨ (checkedFlush b kernel).2.1.status = .error) := by
  unfold checkedFlush at hok ⊢
  cases hfirst : b.bufferedWrites.head? with
  | none => simp [hfirst] at hok
  | some first =>
    rw [hfirst] at hok
    cases kernel with
    | ok => exact absurd rfl hok
    | blocked code => exact ⟨rfl, .inl rfl⟩
    | error code => exact ⟨rfl, .inr rfl⟩

theorem checkedFlush_none (hok : (checkedFlush b kernel).2.1.status ≠ .ok) : (checkedFlush b kernel).2.2 = none := by
  unfold checkedFlush at hok ⊢
  cases hfirst : b.bufferedWrites.head? with
  | none => rfl
  | some first =>
    rw [hfirst] at hok
    cases kernel with
    | ok => exact absurd rfl hok
    | blocked | error => rfl

theorem checkedFlush_dropped (b : QuicBatchWriterBuffer Ip Addr) (kernel : SendmsgResult) :
    (checkedFlush b kernel).2.1.droppedPackets = 0 := by
  unfold checkedFlush
  cases b.bufferedWrites.head? with
  | none => rfl
  | some first => cases kernel <;> rfl

/-- The packets that count as accepted after a call that answered `r`. An error takes back as many as the answer says
were dropped, the packet of the call among them. -/
def acceptedAfter (accepted : List (OutgoingPacket Ip Addr)) (p : OutgoingPacket Ip Addr) (r : PacketWriteResult) :
    List (OutgoingPacket Ip Addr) :=
  match r.status with
  | .ok | .blockedDataBuffered => accepted ++ [p]
  | .blocked | .msgTooBig => accepted
  | .error => accepted.take (accepted.length - (r.droppedPackets - 1))

structure Accounted (b : QuicBatchWriterBuffer Ip Addr) (p : OutgoingPacket Ip Addr) (o : Outcome Ip Addr) : Prop where
  inv : o.writer.batchBuffer.Inv
  sent_ok : ∀ batch ∈ o.sent, batch.Ok
  accepted : ∀ before, acceptedAfter (before ++ b.packets) p o.result =
    before ++ o.sent.toList.flatMap GsoBatch.packets ++ o.writer.batchBuffer.packets

theorem length_le_of_inv (h : b.Inv) : b.bufferedWrites.length ≤ 45 := by
  cases hfirst : b.bufferedWrites.head? with
  | none =>
    rw [head?_eq_none_iff.1 hfirst]
    exact Nat.zero_le 45
  | some first =>
    have := (h.uniform first hfirst).count_le
    rw [maxSegments] at this
    split at this <;> omega

theorem packets_empty (he : b.bufferedWrites = []) : b.packets = [] := by
  rw [packets, he, map_nil]

theorem length_packets : b.packets.length = b.bufferedWrites.length := length_map ..

namespace Accounted
variable {p : OutgoingPacket Ip Addr} {o : Outcome Ip Addr}

theorem of_ok (hinv : o.writer.batchBuffer.Inv) (hsent : ∀ batch ∈ o.sent, batch.Ok)
    (hr : o.result.status = .ok ∨ o.result.status = .blockedDataBuffered)
    (hp : b.packets ++ [p] = o.sent.toList.flatMap GsoBatch.packets ++ o.writer.batchBuffer.packets) :
    Accounted b p o := by
  refine ⟨hinv, hsent, fun before => ?_⟩
  rw [append_assoc, ← hp, ← append_assoc]
  rcases hr with hr | hr <;> rw [acceptedAfter, hr]

theorem of_blocked (hinv : o.writer.batchBuffer.Inv) (hsent : o.sent = none) (hr : o.result.status = .blocked)
    (hp : o.writer.batchBuffer = b) : Accounted b p o := by
  refine ⟨hinv, by simp [hsent], fun before => ?_⟩
  rw [acceptedAfter, hr, hsent, hp]
  simp

theorem of_error (he : o.writer.batchBuffer.bufferedWrites = []) (hsent : o.sent = none) (hr : o.result.status = .error)
    (hd : o.result.droppedPackets = b.packets.length + 1) : Accounted b p o := by
  refine ⟨inv_empty he, by simp [hsent], fun before => ?_⟩
  rw [acceptedAfter, hr, hsent, packets_empty he, hd]
  simp

end Accounted

section
variable {w : QuicGsoBatchWriter Ip Addr} {packet : PacketSource} {selfAddress : Ip} {peerAddress : Addr}
  {params : QuicPacketWriterParams} {releaseTime : Nat × Int} {kernel : SendmsgResult} {p : OutgoingPacket Ip Addr}

theorem flushForPacket_buffered (h : w.batchBuffer.Inv) (hp : w.batchBuffer.packets = b.packets ++ [p]) :
    Accounted b p (w.flushForPacket true packet selfAddress peerAddress params releaseTime kernel) := by
  have hlen : w.batchBuffer.bufferedWrites.length = b.packets.length + 1 := by
    rw [← length_packets, hp, length_append, length_singleton]
  have hle := length_le_of_inv h
  unfold flushForPacket
  by_cases hok : (checkedFlush w.batchBuffer kernel).2.1.status = .ok
  · obtain ⟨hempty, -, hsent, hpackets⟩ := checkedFlush_ok h hok
    rw [if_neg (not_not.2 hok), if_pos rfl]
    refine .of_ok (inv_empty hempty) hsent (.inl hok) ?_
    rw [hpackets, packets_empty hempty, hp, append_nil]
  · obtain ⟨hsame, hstatus⟩ := checkedFlush_ne_ok hok
    rw [if_pos hok]
    rcases hstatus with hstatus | hstatus
    · rw [if_pos (by rw [hstatus]; rfl), hsame]
      refine .of_ok h (by simp) (.inr rfl) ?_
      simp [hp]
    · rw [if_neg (by rw [hstatus]; decide), hsame]
      refine .of_error rfl rfl hstatus ?_
      dsimp only
      rw [if_pos rfl, hlen]
      omega

theorem flushForPacket_unbuffered (h : w.batchBuffer.Inv) (hfits : Fits packet)
    (hsmall : packet.bufLen ≤ kMaxOutgoingPacketSize) :
    Accounted w.batchBuffer ⟨packet.data w.batchBuffer.mem, selfAddress, peerAddress, params.ecnCodepoint⟩
      (w.flushForPacket false packet selfAddress peerAddress params releaseTime kernel) := by
  have hle := length_le_of_inv h
  unfold flushForPacket
  by_cases hok : (checkedFlush w.batchBuffer kernel).2.1.status = .ok
  · obtain ⟨hempty, hmem, hsent, hpackets⟩ := checkedFlush_ok h hok
    rw [if_neg (not_not.2 hok), if_neg Bool.false_ne_true]
    obtain ⟨b', hpush⟩ := pushBufferedWrite_empty hempty hfits selfAddress peerAddress params releaseTime.1
    have hc : Contiguous 0 (checkedFlush w.batchBuffer kernel).1.bufferedWrites := (inv_empty hempty).contiguous
    obtain ⟨hws, hps⟩ := pushBufferedWrite_spec hc hfits hpush
    rw [hempty, nil_append, sizeInUse_eq hc, hempty] at hws
    rw [packets_empty hempty, nil_append, hmem] at hps
    rw [hpush]
    refine .of_ok ⟨?_, ?_⟩ hsent (.inl hok) ?_
    · rw [hws]
      exact ⟨rfl, trivial⟩
    · intro first hfirst
      rw [hws] at hfirst ⊢
      cases hfirst
      exact uniform_singleton hsmall
    · rw [hpackets, hps]
  · obtain ⟨hsame, hstatus⟩ := checkedFlush_ne_ok hok
    rw [if_pos hok]
    rcases hstatus with hstatus | hstatus
    · rw [if_pos (by rw [hstatus]; rfl), hsame]
      exact .of_blocked h rfl rfl rfl
    · rw [if_neg (by rw [hstatus]; decide), hsame]
      refine .of_error rfl rfl hstatus ?_
      dsimp only
      rw [if_neg Bool.false_ne_true, length_packets]
      omega

variable [DecidableEq Ip] [DecidableEq Addr]

theorem inv_push {t : Nat} {b' : QuicBatchWriterBuffer Ip Addr} (h : w.batchBuffer.Inv) (hfits : Fits packet)
    (hsmall : packet.bufLen ≤ kMaxOutgoingPacketSize)
    (hcan : (w.canBatch packet.bufLen selfAddress peerAddress params t).canBatch = true)
    (hpush : w.batchBuffer.pushBufferedWrite packet selfAddress peerAddress params t = some b') : b'.Inv := by
  obtain ⟨hws, -⟩ := pushBufferedWrite_spec h.contiguous hfits hpush
  have hsize := sizeInUse_eq h.contiguous
  constructor
  · rw [hws]
    refine contiguous_concat.2 ⟨h.contiguous, ?_⟩
    rw [hsize, zero_add]
  · intro first hfirst
    unfold canBatch at hcan
    cases hhead : w.batchBuffer.bufferedWrites.head? with
    | none =>
      rw [head?_eq_none_iff.1 hhead, nil_append] at hws
      rw [hws] at hfirst ⊢
      cases hfirst
      exact uniform_singleton hsmall
    | some first' =>
      have hne : w.batchBuffer.bufferedWrites ≠ [] := by
        intro hnil
        simp [hnil] at hhead
      obtain ⟨last, hlast⟩ := Option.isSome_iff_exists.1 (getLast?_isSome.2 hne)
      rw [hws, head?_append, hhead, Option.some_or, Option.some.injEq] at hfirst
      subst hfirst
      rw [hhead, hlast] at hcan
      simp only [Bool.and_eq_true, decide_eq_true_eq] at hcan
      obtain ⟨⟨⟨⟨⟨⟨⟨h0, h1⟩, h2⟩, h3⟩, h4⟩, h5⟩, h6⟩, -⟩ := hcan
      rw [hws]
      exact (h.uniform first' hhead).concat hlast h0 h1 h2 (by rw [← hsize]; exact h3) h4 h5 h6

theorem internalWritePacket_accounted (h : w.batchBuffer.Inv) (hfits : Fits packet) (selfAddress : Ip)
    (peerAddress : Addr)
    (params : QuicPacketWriterParams) (now : Nat) (kernel : SendmsgResult) :
    Accounted w.batchBuffer ⟨packet.data w.batchBuffer.mem, selfAddress, peerAddress, params.ecnCodepoint⟩
      (w.internalWritePacket packet selfAddress peerAddress params now kernel) := by
  unfold internalWritePacket
  split
  · exact ⟨h, by simp, fun before => by simp [acceptedAfter]⟩
  next hbig =>
  dsimp only
  have hsmall : packet.bufLen ≤ kMaxOutgoingPacketSize := Nat.le_of_not_lt hbig
  generalize (if w.supportsReleaseTime = true then w.getReleaseTime params now else (0, 0)) = releaseTime
  split
  next hcan =>
    cases hpush : w.batchBuffer.pushBufferedWrite packet selfAddress peerAddress params releaseTime.1 with
    | none => exact flushForPacket_unbuffered h hfits hsmall
    | some b' =>
      have hinv := inv_push h hfits hsmall hcan hpush
      have hpackets := (pushBufferedWrite_spec h.contiguous hfits hpush).2
      dsimp only
      split
      · exact flushForPacket_buffered hinv hpackets
      · refine .of_ok hinv (by simp) (.inl rfl) ?_
        rw [hpackets]
        rfl
  · exact flushForPacket_unbuffered h hfits hsmall

theorem writePacket_accounted (h : w.batchBuffer.Inv) (hfits : Fits packet) (selfAddress : Ip) (peerAddress : Addr)
    (params : QuicPacketWriterParams) (now : Nat) (kernel : SendmsgResult) :
    Accounted w.batchBuffer ⟨packet.data w.batchBuffer.mem, selfAddress, peerAddress, params.ecnCodepoint⟩
      (w.writePacket packet selfAddress peerAddress params now kernel) := by
  have hacc := internalWritePacket_accounted h hfits selfAddress peerAddress params now kernel
  unfold writePacket
  dsimp only
  split
  · exact ⟨hacc.inv, hacc.sent_ok, hacc.accepted⟩
  · exact hacc

end

end QuicGsoBatchWriter

/-! ## Runs -/

/-- The writer, the packets it has accepted less those it has reported as dropped, and what the kernel has taken. -/
structure BatchWorld (Ip Addr : Type) where
  writer : QuicGsoBatchWriter Ip Addr
  accepted : List (OutgoingPacket Ip Addr) := []
  sent : List (GsoBatch Ip Addr) := []

namespace BatchWorld

open QuicBatchWriterBuffer QuicGsoBatchWriter

inductive Event (Ip Addr : Type)
  | writePacket (packet : PacketSource) (selfAddress : Ip) (peerAddress : Addr) (params : QuicPacketWriterParams)
    (now : Nat) (kernel : SendmsgResult)
  | flush (kernel : SendmsgResult)
  | setWritable

variable [DecidableEq Ip] [DecidableEq Addr]

def step (s : BatchWorld Ip Addr) : Event Ip Addr → Option (BatchWorld Ip Addr)
  | .writePacket packet selfAddress peerAddress params now kernel =>
    if s.writer.writeBlocked = false ∧ Fits packet then
      let p : OutgoingPacket Ip Addr :=
        ⟨packet.data s.writer.batchBuffer.mem, selfAddress, peerAddress, params.ecnCodepoint⟩
      let o := s.writer.writePacket packet selfAddress peerAddress params now kernel
      some ⟨o.writer, acceptedAfter s.accepted p o.result, s.sent ++ o.sent.toList⟩
    else none
  | .flush kernel =>
    if s.writer.writeBlocked = false then
      let o := s.writer.flush kernel
      some ⟨o.writer, s.accepted.take (s.accepted.length - o.result.droppedPackets), s.sent ++ o.sent.toList⟩
    else none
  | .setWritable => some { s with writer := s.writer.setWritable }

structure Inv (s : BatchWorld Ip Addr) : Prop where
  buffer : s.writer.batchBuffer.Inv
  sent_ok : ∀ batch ∈ s.sent, batch.Ok
  accepted : s.accepted = s.sent.flatMap GsoBatch.packets ++ s.writer.batchBuffer.packets

variable {s s' : BatchWorld Ip Addr}

omit [DecidableEq Ip] [DecidableEq Addr] in
theorem flush_cases (w : QuicGsoBatchWriter Ip Addr) (h : w.batchBuffer.Inv) (kernel : SendmsgResult) :
    (w.flush kernel).writer.batchBuffer.Inv ∧ (∀ batch ∈ (w.flush kernel).sent, batch.Ok) ∧
      ((w.flush kernel).result.droppedPackets = 0 ∧
          w.batchBuffer.packets =
            (w.flush kernel).sent.toList.flatMap GsoBatch.packets ++ (w.flush kernel).writer.batchBuffer.packets ∨
        (w.flush kernel).result.droppedPackets = w.batchBuffer.packets.length ∧ (w.flush kernel).sent = none ∧
          (w.flush kernel).writer.batchBuffer.packets = []) := by
  have hdropped := checkedFlush_dropped w.batchBuffer kernel
  have hle := length_le_of_inv h
  unfold QuicGsoBatchWriter.flush
  by_cases hok : (checkedFlush w.batchBuffer kernel).2.1.status = .ok
  · obtain ⟨hempty, -, hsent, hpackets⟩ := checkedFlush_ok h hok
    rw [if_neg (by rw [hok]; decide), if_neg (by rw [hok]; decide)]
    refine ⟨inv_empty hempty, hsent, .inl ⟨hdropped, ?_⟩⟩
    rw [hpackets, packets_empty hempty, append_nil]
  · obtain ⟨hsame, hstatus⟩ := checkedFlush_ne_ok hok
    rcases hstatus with hstatus | hstatus
    · have hnone : (checkedFlush w.batchBuffer kernel).2.2 = none := checkedFlush_none hok
      rw [if_pos hstatus, if_neg (by rw [hstatus]; decide), hsame, hnone]
      exact ⟨h, by simp, .inl ⟨hdropped, rfl⟩⟩
    · rw [if_neg (by rw [hstatus]; decide), if_pos (by rw [hstatus]; rfl), hsame]
      refine ⟨inv_empty rfl, by simp, .inr ⟨?_, rfl, rfl⟩⟩
      dsimp only
      rw [length_packets]
      omega

theorem Inv.step (e : Event Ip Addr) (h : s.Inv) (hs : s.step e = some s') : s'.Inv := by
  cases e with
  | writePacket packet selfAddress peerAddress params now kernel =>
    obtain ⟨⟨-, hfits⟩, ⟨⟩⟩ := Option.ite_none_right_eq_some.1 hs
    have hacc := writePacket_accounted h.buffer hfits selfAddress peerAddress params now kernel
    refine ⟨hacc.inv, ?_, ?_⟩
    · intro batch hbatch
      rcases mem_append.1 hbatch with hbatch | hbatch
      · exact h.sent_ok batch hbatch
      · exact hacc.sent_ok batch (Option.mem_toList.1 hbatch)
    · rw [h.accepted, hacc.accepted, flatMap_append]
  | flush kernel =>
    obtain ⟨-, ⟨⟩⟩ := Option.ite_none_right_eq_some.1 hs
    obtain ⟨hinv, hsent, haccepted⟩ := flush_cases s.writer h.buffer kernel
    refine ⟨hinv, ?_, ?_⟩
    · intro batch hbatch
      rcases mem_append.1 hbatch with hbatch | hbatch
      · exact h.sent_ok batch hbatch
      · exact hsent batch (Option.mem_toList.1 hbatch)
    · rw [h.accepted, flatMap_append]
      rcases haccepted with ⟨hzero, hp⟩ | ⟨hall, hnone, hp⟩
      · rw [hzero, Nat.sub_zero, take_length, hp, append_assoc]
      · rw [hall, hnone, hp, length_append, Nat.add_sub_cancel, take_left]
        simp
  | setWritable =>
    cases hs
    exact ⟨h.buffer, h.sent_ok, h.accepted⟩

/-- **Accepted packets are sent once and in order**, in batches that the kernel cuts as they were put together. -/
theorem batches_deliver_accepted {supportsReleaseTime : Bool} {es : List (Event Ip Addr)} {s : BatchWorld Ip Addr}
    (hr : Lts.run step ⟨{ supportsReleaseTime }, [], []⟩ es = some s) :
    s.accepted = s.sent.flatMap GsoBatch.packets ++ s.writer.batchBuffer.packets ∧ (∀ batch ∈ s.sent, batch.Ok) ∧
      Contiguous 0 s.writer.batchBuffer.bufferedWrites ∧ s.writer.batchBuffer.sizeInUse ≤ kBufferSize ∧
      (s.writer.batchBuffer.bufferedWrites = [] → ∀ packet, Fits packet → ∀ selfAddress peerAddress params releaseTime,
        ∃ b', s.writer.batchBuffer.pushBufferedWrite packet selfAddress peerAddress params releaseTime = some b') := by
  have hinit : Inv (⟨{ supportsReleaseTime }, [], []⟩ : BatchWorld Ip Addr) := ⟨inv_empty rfl, by simp, rfl⟩
  have h : s.Inv := Lts.run_inv (fun _ e _ hi hs => hi.step e hs) hinit hr
  refine ⟨h.accepted, h.sent_ok, h.buffer.contiguous, ?_, fun he packet hfits => pushBufferedWrite_empty he hfits⟩
  rw [sizeInUse_eq h.buffer.contiguous]
  cases hfirst : s.writer.batchBuffer.bufferedWrites.head? with
  | none =>
    rw [head?_eq_none_iff.1 hfirst]
    exact Nat.zero_le kBufferSize
  | some first => exact le_trans (h.buffer.uniform first hfirst).size_le (by decide)

def blockedThenError : List (Event Nat Nat) :=
  [.writePacket (.external [1, 2, 3]) 0 7 {} 0 .ok, .writePacket (.external [4, 5, 6]) 0 7 {} 0 .ok,
    .writePacket (.external [7]) 0 7 {} 0 (.blocked 11), .setWritable, .writePacket (.external [8, 9]) 0 5 {} 0 .ok,
    .flush (.error 1)]

theorem batches_deliver_accepted_blocked : ∃ s : BatchWorld Nat Nat,
    Lts.run step ⟨{ supportsReleaseTime := false }, [], []⟩ blockedThenError = some s ∧
      s.accepted = s.sent.flatMap GsoBatch.packets ++ s.writer.batchBuffer.packets ∧
      s.accepted.map OutgoingPacket.data = [[1, 2, 3], [4, 5, 6], [7]] := by
  have hr : Lts.run step ⟨{ supportsReleaseTime := false }, [], []⟩ blockedThenError = some _ := rfl
  exact ⟨_, hr, (batches_deliver_accepted hr).1, rfl⟩

end BatchWorld

end Quictun
