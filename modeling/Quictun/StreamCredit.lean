import Quictun.ReceiveWindow

/-!
# The credit of one stream

What a stream has added to the session's `highest_received_byte_offset` and to its
`bytes_consumed`. While a stream is open both are what its own flow controller says. A
stream that closes gives back everything it was charged for. If its final size was not known
then, a late FIN or RESET_STREAM adds the difference; if it was, nothing more is added.
-/

namespace Quictun

open IntervalSet QuicStream QuicFlowController

namespace QuicStreamSequencer

def Empty (q : QuicStreamSequencer) : Prop := q.clear.bytesReceived = q.bytesReceived

theorem empty_clear (q : QuicStreamSequencer) : q.clear.Empty := rfl

theorem Empty.readableBytes {q : QuicStreamSequencer} (h : q.Empty) : q.readableBytes = 0 := by
  rw [QuicStreamSequencer.readableBytes, ← h, clear]
  split
  next h0 => simp [prefixEnd]
  · simp [prefixEnd]

theorem Empty.sup {q : QuicStreamSequencer} (h : q.Empty) : q.bytesReceived.sup = q.totalBytesRead := by
  rw [← h, clear]
  split
  next h0 => rw [h0, IntervalSet.sup]
  · rfl

structure Ordered (q : QuicStreamSequencer) (n : Nat) : Prop where
  canonical : q.bytesReceived.Canonical
  read_le : q.totalBytesRead ≤ q.bytesReceived.prefixEnd
  le : ∀ e ∈ q.bytesReceived, e.2 ≤ n

section
variable {q : QuicStreamSequencer}

theorem Ordered.sup_le {n : Nat} (h : q.Ordered n) : q.bytesReceived.sup ≤ n :=
  IntervalSet.sup_le h.le

theorem Ordered.read_le_sup {n : Nat} (h : q.Ordered n) : q.totalBytesRead ≤ q.bytesReceived.sup :=
  le_trans h.read_le (prefixEnd_le_sup h.canonical)

theorem Ordered.prefixEnd_le {n : Nat} (h : q.Ordered n) : q.bytesReceived.prefixEnd ≤ n :=
  le_trans (prefixEnd_le_sup h.canonical) h.sup_le

theorem Ordered.mono {m n : Nat} (h : q.Ordered m) (hmn : m ≤ n) : q.Ordered n :=
  { h with le := fun e he => le_trans (h.le e he) hmn }

theorem ordered_clear {n : Nat} (h : q.totalBytesRead ≤ n) : q.clear.Ordered n := by
  unfold clear
  split
  next h0 =>
    exact ⟨trivial, h0 ▸ Nat.zero_le _, fun e he => absurd he List.not_mem_nil⟩
  next h0 =>
    refine ⟨⟨Nat.pos_of_ne_zero h0, fun f hf => absurd hf List.not_mem_nil, trivial⟩, le_rfl, ?_⟩
    intro e he
    rw [List.mem_singleton.1 he]
    exact h

theorem onStreamData_eq {offset len : Nat} {r : IntervalSet}
    (hr : q.onStreamData offset len = .ok (some r)) :
    q.bytesReceived.covers offset (offset + len) = false ∧ r = q.bytesReceived.add offset (offset + len) := by
  unfold onStreamData at hr
  split at hr
  · cases hr
  split at hr
  · cases hr
  next hc =>
  split at hr
  · cases hr
  · cases hr
    exact ⟨Bool.eq_false_iff.2 hc, rfl⟩

theorem Ordered.add {n offset len : Nat} (h : q.Ordered n) (hlen : 0 < len) (hn : offset + len ≤ n) :
    ({ q with bytesReceived := q.bytesReceived.add offset (offset + len) } : QuicStreamSequencer).Ordered n :=
  ⟨canonical_add (Nat.lt_add_of_pos_right hlen) h.canonical,
    le_trans h.read_le (prefixEnd_le_add _ _ _), add_le h.le hn⟩

end

end QuicStreamSequencer

open QuicStreamSequencer

namespace Receiver

/-! ## Shares -/

/-- `F` is the stream's final size, `S` what the peer has sent on it so far, `bh` and `bc` are the
shares of all other streams, and `W` is an offset the session has advertised. -/
structure Terms where
  P : Prop
  (F S W bh bc : Nat)

section
variable {T : Terms} {learned : Bool} {v v' : Receiver}

structure Open (T : Terms) (v : Receiver) : Prop where
  notLocallyClosed : v.locallyClosed = none
  charged : v.session.highestReceivedByteOffset = T.bh + v.highest
  credited : v.session.bytesConsumed = T.bc + v.stream.flowController.bytesConsumed
  consumed_le : v.stream.flowController.bytesConsumed ≤ v.highest
  highest_le : v.highest ≤ T.S
  streamRoom : T.S ≤ v.stream.flowController.receiveWindowOffset
  sessionRoom : T.W ≤ v.session.receiveWindowOffset

structure Reading (T : Terms) (learned : Bool) (v : Receiver) : Prop where
  isOpen : v.Open T
  readSideClosed : v.stream.readSideClosed = false
  ordered : v.stream.sequencer.Ordered v.highest
  read : v.stream.sequencer.totalBytesRead = v.stream.flowController.bytesConsumed
  rstReceived : v.stream.rstReceived = false
  learned : learned = v.stream.finReceived
  closeOffset : v.stream.sequencer.closeOffset = if v.stream.finReceived then some T.F else none

structure Drained (T : Terms) (learned : Bool) (v : Receiver) : Prop where
  isOpen : v.Open T
  readSideClosed : v.stream.readSideClosed = true
  writeSideClosed : v.stream.writeSideClosed = false
  empty : v.stream.sequencer.Empty
  learned : learned = true
  hasReceivedFinalOffset : v.stream.hasReceivedFinalOffset = true
  final : v.highest = T.F

structure Closed (T : Terms) (learned : Bool) (v : Receiver) : Prop where
  readSideClosed : v.stream.readSideClosed = true
  writeSideClosed : v.stream.writeSideClosed = true
  empty : v.stream.sequencer.Empty
  sessionRoom : T.W ≤ v.session.receiveWindowOffset
  share : ∃ x, x ≤ T.S ∧ v.session.highestReceivedByteOffset = T.bh + x ∧ v.session.bytesConsumed = T.bc + x ∧
    ((v.locallyClosed = some x ∧ learned = false) ∨ (v.locallyClosed = none ∧ learned = true ∧ (T.P → x = T.F)))

inductive Credit (T : Terms) (learned : Bool) (v : Receiver) : Prop
  | reading (h : v.Reading T learned)
  | drained (h : v.Drained T learned)
  | closed (h : v.Closed T learned)

section
variable (h : v.Credit T learned)
include h

theorem Credit.rebase {g : QuicFlowController} {W' bh' bc' : Nat}
    (hh : ∀ x, v.session.highestReceivedByteOffset = T.bh + x → g.highestReceivedByteOffset = bh' + x)
    (hc : ∀ x, v.session.bytesConsumed = T.bc + x → g.bytesConsumed = bc' + x) (hW : W' ≤ g.receiveWindowOffset) :
    ({ v with session := g } : Receiver).Credit { T with W := W', bh := bh', bc := bc' } learned := by
  have hopen : v.Open T → ({ v with session := g } : Receiver).Open
    { T with W := W', bh := bh', bc := bc' } := fun ho =>
    { ho with charged := hh _ ho.charged, credited := hc _ ho.credited, sessionRoom := hW }
  cases h with
  | reading h => exact .reading { h with isOpen := hopen h.isOpen }
  | drained h => exact .drained { h with isOpen := hopen h.isOpen }
  | closed h =>
    obtain ⟨x, hx, hx1, hx2, hl⟩ := h.share
    exact .closed { h with sessionRoom := hW, share := ⟨x, hx, hh x hx1, hc x hx2, hl⟩ }

theorem Credit.mono {S' : Nat} (hS : T.S ≤ S')
    (hroom : S' ≤ v.stream.flowController.receiveWindowOffset) : v.Credit { T with S := S' } learned := by
  have hopen : v.Open T → v.Open { T with S := S' } := fun ho =>
    { ho with highest_le := le_trans ho.highest_le hS, streamRoom := hroom }
  cases h with
  | reading h => exact .reading { h with isOpen := hopen h.isOpen }
  | drained h => exact .drained { h with isOpen := hopen h.isOpen }
  | closed h =>
    obtain ⟨x, hx, hr⟩ := h.share
    exact .closed { h with share := ⟨x, le_trans hx hS, hr⟩ }

theorem Credit.open_or_closed : v.stream.closed = false ∧ v.Open T ∨
    v.stream.closed = true ∧ v.Closed T learned := by
  unfold QuicStream.closed
  cases h with
  | reading h => exact .inl ⟨by rw [h.readSideClosed, Bool.false_and], h.isOpen⟩
  | drained h => exact .inl ⟨by rw [h.writeSideClosed, Bool.and_false], h.isOpen⟩
  | closed h => exact .inr ⟨by rw [h.readSideClosed, h.writeSideClosed]; rfl, h⟩

theorem Credit.share :
    ∃ x y, x ≤ T.S ∧ v.session.highestReceivedByteOffset = T.bh + x ∧ v.session.bytesConsumed = T.bc + y ∧
      y = if v.stream.closed then x else v.stream.flowController.bytesConsumed := by
  rcases h.open_or_closed with ⟨hc, ho⟩ | ⟨hc, hcl⟩ <;> rw [hc]
  · exact ⟨_, _, ho.highest_le, ho.charged, ho.credited, rfl⟩
  · obtain ⟨x, hx, hx1, hx2, _⟩ := hcl.share
    exact ⟨x, x, hx, hx1, hx2, rfl⟩

theorem Credit.sessionRoom : T.W ≤ v.session.receiveWindowOffset := by
  cases h with
  | reading h | drained h => exact h.isOpen.sessionRoom
  | closed h => exact h.sessionRoom

theorem Credit.isOpen (hc : v.stream.closed = false) : v.Open T := by
  rcases h.open_or_closed with ⟨-, ho⟩ | ⟨hcl, -⟩
  · exact ho
  · cases hc.symm.trans hcl

theorem Credit.toClosed (hc : v.stream.closed = true) : v.Closed T learned := by
  rcases h.open_or_closed with ⟨ho, -⟩ | ⟨-, hcl⟩
  · cases hc.symm.trans ho
  · exact hcl

end

/-- The stream has its share, and its controllers have only evolved since `v`. -/
structure Kept (T : Terms) (learned : Bool) (v v' : Receiver) : Prop where
  credit : v'.Credit T learned
  flows : T.bc ≤ T.bh → v.Windows → v.Flows v'

theorem Credit.kept (h : v'.Credit T learned)
    (hf : v'.stream.flowController = v.stream.flowController) (hs : v'.session = v.session) :
    v.Kept T learned v' :=
  ⟨h, fun _ _ => ⟨hf ▸ .refl, hs ▸ .refl⟩⟩

theorem Kept.since {w : Receiver} (h : w.Kept T learned v')
    (hf : w.stream.flowController = v.stream.flowController) (hs : w.session = v.session) :
    v.Kept T learned v' := by
  refine ⟨h.credit, fun hbc hb => ?_⟩
  obtain ⟨h1, h2⟩ := h.flows hbc ⟨hf ▸ hb.stream, hs ▸ hb.session⟩
  exact ⟨hf ▸ h1, hs ▸ h2⟩

theorem Kept.trans {l : Bool} {w : Receiver} (h : v.Kept T l w) (h' : w.Kept T learned v') :
    v.Kept T learned v' := by
  refine ⟨h'.credit, fun hbc hb => ?_⟩
  have hf := h.flows hbc hb
  exact hf.trans (h'.flows hbc (hb.flows hf))

/-! ## Closing -/

section
variable (hW : T.bh + T.S ≤ T.W)
include hW

theorem Open.no_violation (h : v.Open T) : v.flowControlViolation = false := by
  have h1 := h.highest_le
  have h2 := h.streamRoom
  have h3 := h.sessionRoom
  have h4 := h.charged
  unfold highest at h1 h4
  simp only [flowControlViolation, QuicFlowController.flowControlViolation, Bool.or_eq_false_iff,
    decide_eq_false_iff_not]
  omega

theorem closed_onClose (h : v.Open T) (hr : v.stream.readSideClosed = true)
    (hw : v.stream.writeSideClosed = true) (he : v.stream.sequencer.Empty)
    (hl : learned = v.stream.hasReceivedFinalOffset) (hF : T.P → learned = true → v.highest = T.F) :
    v.onStreamClosed.onClose.Closed T learned ∧ v.Kept T learned v.onStreamClosed.onClose := by
  obtain ⟨hc, hh, hrw⟩ := v.session.addBytesConsumed_eq (v.highest - v.stream.flowController.bytesConsumed)
  have hnv := h.no_violation hW
  have hcr := h.credited
  have hle := h.consumed_le
  have hcons : (v.session.addBytesConsumed (v.highest - v.stream.flowController.bytesConsumed)).bytesConsumed =
      T.bc + v.highest := by
    rw [hc, hcr]
    omega
  have hclose : ∀ o, (o = some v.highest ∧ learned = false ∨ o = none ∧ learned = true ∧ (T.P → v.highest = T.F)) →
      ({ v with locallyClosed := o } : Receiver).onClose.Closed T learned ∧
        v.Kept T learned ({ v with locallyClosed := o } : Receiver).onClose := by
    intro o ho
    have hnv' : ({ v with locallyClosed := o } : Receiver).flowControlViolation = false := hnv
    have hoc : ({ v with locallyClosed := o } : Receiver).onClose =
        { v with
          locallyClosed := o
          session := v.session.addBytesConsumed (v.highest - v.stream.flowController.bytesConsumed) } := by
      rw [onClose, hnv', if_neg Bool.false_ne_true, addBytesConsumed, if_pos hr]
      rfl
    have hcl : ({ v with locallyClosed := o } : Receiver).onClose.Closed T learned := by
      rw [hoc]
      exact ⟨hr, hw, he, le_trans h.sessionRoom hrw, v.highest, h.highest_le, hh.trans h.charged, hcons, ho⟩
    refine ⟨hcl, .closed hcl, fun hbc hb => ?_⟩
    have h1 := h.highest_le
    have h2 := h.sessionRoom
    rw [hoc]
    exact ⟨.refl, .consumed .refl _ (inBounds_addBytesConsumed hb.session (by omega))⟩
  by_cases hf : v.stream.hasReceivedFinalOffset = true
  · rw [onStreamClosed, if_pos hf]
    exact hclose v.locallyClosed (.inr ⟨h.notLocallyClosed, hl.trans hf, fun hP => hF hP (hl.trans hf)⟩)
  · rw [onStreamClosed, if_neg hf]
    exact hclose (some v.highest) (.inl ⟨rfl, hl.trans (Bool.eq_false_iff.2 hf)⟩)

omit hW in
theorem Open.releaseRead (h : v.Open T) : v.releaseRead.Open T := { h with }

omit hW in
theorem Open.releaseWrite (h : v.Open T) : v.releaseWrite.Open T := { h with }

theorem kept_closeReadSide (h : v.Open T) (hr : v.stream.readSideClosed = false)
    (hl : learned = true) (hf : v.stream.hasReceivedFinalOffset = true) (hF : v.highest = T.F) :
    v.Kept T learned v.closeReadSide := by
  unfold closeReadSide
  rw [if_neg (by simp [hr])]
  split
  next hw =>
    exact (closed_onClose hW h.releaseRead rfl hw (empty_clear _) (hl.trans hf.symm)
      fun _ _ => hF).2.since rfl rfl
  next hw =>
    have hd : v.releaseRead.Drained T learned :=
      ⟨h.releaseRead, rfl, Bool.eq_false_iff.2 hw, empty_clear _, hl, hf, hF⟩
    exact (Credit.drained hd).kept rfl rfl

theorem Reading.reset (h : v.Reading T learned) (hF : T.P → learned = true → v.highest = T.F) :
    v.Kept T learned v.reset := by
  have hl : learned = v.stream.hasReceivedFinalOffset := by
    rw [h.learned, hasReceivedFinalOffset, h.rstReceived, Bool.or_false]
  unfold Receiver.reset closeReadSide
  rw [if_neg (by simp [h.readSideClosed])]
  split
  next hw =>
    obtain ⟨hc, hk⟩ := closed_onClose (T := T) hW h.isOpen.releaseRead rfl hw (empty_clear _) hl hF
    rw [closeWriteSide, if_pos hc.writeSideClosed]
    exact hk.since rfl rfl
  next hw =>
    have hw' : ¬v.releaseRead.stream.writeSideClosed = true := hw
    have hr' : v.releaseRead.stream.readSideClosed = true := rfl
    rw [closeWriteSide, if_neg hw', if_pos hr']
    exact (closed_onClose hW h.isOpen.releaseRead.releaseWrite rfl rfl (empty_clear _) hl hF).2.since rfl rfl

theorem Credit.closeWriteSide (h : v.Credit T learned) : v.Kept T learned v.closeWriteSide := by
  unfold Receiver.closeWriteSide
  split
  · exact h.kept rfl rfl
  next hw =>
  cases h with
  | reading h =>
    rw [if_neg (by simp [h.readSideClosed])]
    have hr : v.releaseWrite.Reading T learned := { h with isOpen := h.isOpen.releaseWrite }
    exact (Credit.reading hr).kept rfl rfl
  | drained h =>
    rw [if_pos h.readSideClosed]
    exact (closed_onClose hW h.isOpen.releaseWrite h.readSideClosed rfl h.empty
      (h.learned.trans h.hasReceivedFinalOffset.symm) fun _ _ => h.final).2.since rfl rfl
  | closed h => exact absurd h.writeSideClosed hw

theorem Credit.reset (h : v.Credit T learned)
    (hF : T.P → v.stream.readSideClosed = false → learned = true → v.highest = T.F) : v.Kept T learned v.reset := by
  cases h with
  | reading h => exact h.reset hW fun hP => hF hP h.readSideClosed
  | drained h =>
    rw [Receiver.reset, closeReadSide, if_pos h.readSideClosed]
    exact Credit.closeWriteSide hW (.drained h)
  | closed h =>
    rw [Receiver.reset, closeReadSide, if_pos h.readSideClosed]
    exact Credit.closeWriteSide hW (.closed h)

/-! ## Reading and flushing -/

omit hW in
theorem Reading.rebuffer (h : v.Reading T learned) {q : QuicStreamSequencer}
    (ho : q.Ordered v.highest) (ht : q.totalBytesRead = v.stream.sequencer.totalBytesRead)
    (hc : q.closeOffset = v.stream.sequencer.closeOffset) : (v.setSequencer q).Reading T learned :=
  { h with isOpen := { h.isOpen with }, ordered := ho, read := ht.trans h.read, closeOffset := hc.trans h.closeOffset }

omit hW in
theorem clear_of_empty (h : v.stream.sequencer.Empty) : v.clear = v := by
  have hq : v.stream.sequencer.clear =
    { v.stream.sequencer with bytesReceived := v.stream.sequencer.bytesReceived } := by
    rw [← h]
    rfl
  rw [clear, setSequencer, hq]

omit hW in
theorem Credit.clear (h : v.Credit T learned) : v.clear.Credit T learned := by
  cases h with
  | reading h =>
    have hle : v.stream.sequencer.totalBytesRead ≤ v.highest := h.read ▸ h.isOpen.consumed_le
    exact .reading (h.rebuffer (ordered_clear hle) rfl rfl)
  | drained h =>
    rw [clear_of_empty h.empty]
    exact .drained h
  | closed h =>
    rw [clear_of_empty h.empty]
    exact .closed h

omit hW in
theorem Kept.clear (h : v.Kept T learned v') : v.Kept T learned v'.clear :=
  h.trans (h.credit.clear.kept rfl rfl)

variable (hSF : T.S ≤ T.F)
include hSF

theorem Credit.onFinRead (h : v.Credit T learned) (hc : v.stream.sequencer.isClosed = true) :
    v.Kept T learned v.onFinRead := by
  unfold Receiver.onFinRead
  cases h with
  | reading h =>
    -- the FIN is known and everything before it has been read, so everything has been received
    rw [isClosed, h.closeOffset] at hc
    split at hc
    next hfin =>
      have h1 := h.isOpen.consumed_le
      have h2 := h.isOpen.highest_le
      have h3 := h.read
      have h4 : T.F ≤ v.stream.sequencer.totalBytesRead := by simpa using hc
      have hF : v.highest = T.F := by omega
      have ho : ({ v with stream := { v.stream with finReceived := true } } : Receiver).Open T := { h.isOpen with }
      exact (kept_closeReadSide hW ho h.readSideClosed (h.learned.trans hfin) rfl hF).since rfl rfl
    · cases hc
  | drained h =>
    rw [closeReadSide, if_pos h.readSideClosed]
    exact Credit.kept (.drained { h with isOpen := { h.isOpen with }, hasReceivedFinalOffset := rfl }) rfl rfl
  | closed h =>
    rw [closeReadSide, if_pos h.readSideClosed]
    exact Credit.kept (.closed { h with }) rfl rfl

theorem Credit.maybeCloseStream (h : v.Credit T learned) : v.Kept T learned v.maybeCloseStream := by
  unfold Receiver.maybeCloseStream
  split
  next hc =>
    split
    · exact (h.onFinRead hW hSF hc).clear
    · exact (h.kept rfl rfl).clear
  · exact h.kept rfl rfl

omit hW hSF in
theorem Reading.consume (h : v.Reading T learned) {q : QuicStreamSequencer} {n : Nat}
    (hq : q.Ordered v.highest) (hn : q.totalBytesRead = v.stream.sequencer.totalBytesRead + n)
    (hle : q.totalBytesRead ≤ v.highest) (hc : q.closeOffset = v.stream.sequencer.closeOffset) :
    ((v.setSequencer q).addBytesConsumed n).Reading T learned := by
  obtain ⟨hsc, hsh, hsw⟩ := v.session.addBytesConsumed_eq n
  obtain ⟨hfc, hfh, hfw⟩ := v.stream.flowController.addBytesConsumed_eq n
  have hr := h.readSideClosed
  have hread := h.read
  have hcr := h.isOpen.credited
  have he : (v.setSequencer q).addBytesConsumed n =
      { v with
        stream := { v.stream with sequencer := q, flowController := v.stream.flowController.addBytesConsumed n }
        session := v.session.addBytesConsumed n } := by
    simp only [addBytesConsumed, setSequencer, hr]
    rfl
  rw [he]
  generalize v.stream.flowController.addBytesConsumed n = f at hfc hfh hfw
  generalize v.session.addBytesConsumed n = g at hsc hsh hsw
  have hhi : ({ v with
    stream := { v.stream with sequencer := q, flowController := f }, session := g } : Receiver).highest =
      v.highest := hfh
  refine ⟨⟨h.isOpen.notLocallyClosed, ?_, ?_, ?_, ?_, ?_, ?_⟩, hr, ?_, ?_, h.rstReceived, h.learned,
    hc.trans h.closeOffset⟩
  · rw [hhi]
    exact hsh.trans h.isOpen.charged
  · show g.bytesConsumed = T.bc + f.bytesConsumed
    omega
  · rw [hhi]
    show f.bytesConsumed ≤ v.highest
    omega
  · rw [hhi]
    exact h.isOpen.highest_le
  · exact le_trans h.isOpen.streamRoom hfw
  · exact le_trans h.isOpen.sessionRoom hsw
  · rw [hhi]
    exact hq
  · show q.totalBytesRead = f.bytesConsumed
    omega

omit hW hSF in
theorem Credit.idle (h : v.Credit T learned) (hr : v.stream.readSideClosed = true)
    {q : QuicStreamSequencer} (hq : q.Empty) : ((v.setSequencer q).addBytesConsumed 0).Credit T learned := by
  obtain ⟨hsc, hsh, hsw⟩ := v.session.addBytesConsumed_eq 0
  have he : (v.setSequencer q).addBytesConsumed 0 =
      { v with stream := { v.stream with sequencer := q }, session := v.session.addBytesConsumed 0 } := by
    simp only [addBytesConsumed, setSequencer, hr]
    rfl
  rw [he]
  cases h with
  | reading h => exact absurd hr (by simp [h.readSideClosed])
  | drained h =>
    exact .drained { h with
      empty := hq
      isOpen := { h.isOpen with
        charged := hsh.trans h.isOpen.charged
        credited := hsc.trans h.isOpen.credited
        sessionRoom := le_trans h.isOpen.sessionRoom hsw } }
  | closed h =>
    obtain ⟨x, hx, hh, hc, hl⟩ := h.share
    exact .closed ⟨hr, h.writeSideClosed, hq, le_trans h.sessionRoom hsw, x, hx, hsh.trans hh, hsc.trans hc, hl⟩

omit hW hSF in
theorem Credit.empty (h : v.Credit T learned) (hr : v.stream.readSideClosed = true) : v.stream.sequencer.Empty := by
  cases h with
  | reading h => exact absurd hr (by simp [h.readSideClosed])
  | drained h | closed h => exact h.empty

omit hW hSF in
theorem Credit.toReading (h : v.Credit T learned) (hr : ¬v.stream.readSideClosed = true) :
    v.Reading T learned := by
  cases h with
  | reading h => exact h
  | drained h | closed h => exact absurd h.readSideClosed hr

omit hSF in
theorem Credit.consume (h : v.Credit T learned) {q : QuicStreamSequencer} {n : Nat}
    (hidle : v.stream.sequencer.Empty → n = 0 ∧ q.Empty)
    (hread : v.Reading T learned → q.Ordered v.highest ∧ q.totalBytesRead = v.stream.sequencer.totalBytesRead + n ∧
      q.totalBytesRead ≤ v.highest ∧ q.closeOffset = v.stream.sequencer.closeOffset) :
    v.Kept T learned ((v.setSequencer q).addBytesConsumed n) := by
  by_cases hr : v.stream.readSideClosed = true
  · obtain ⟨rfl, hq⟩ := hidle (h.empty hr)
    refine ⟨h.idle hr hq, fun _ hb => ?_⟩
    have hw : (v.setSequencer q).Windows := { hb with }
    have hf := @Windows.addBytesConsumed _ hw 0 (fun hr' => by cases hr.symm.trans hr') hb.session.consumed_le
    exact ⟨hf.stream, hf.session⟩
  · have hrd := h.toReading hr
    obtain ⟨hq, hn, hle, hc⟩ := hread hrd
    refine ⟨.reading (hrd.consume hq hn hle hc), fun _ hb => ?_⟩
    have hw : (v.setSequencer q).Windows := { hb with }
    have h1 := hrd.isOpen.credited
    have h2 := hrd.isOpen.highest_le
    have h3 := hrd.isOpen.sessionRoom
    have h4 := hrd.isOpen.streamRoom
    have h5 := hrd.read
    have hf := @Windows.addBytesConsumed _ hw n (fun _ => show v.stream.flowController.bytesConsumed + n ≤ _ by
      exact le_trans (by omega) h4) (show v.session.bytesConsumed + n ≤ _ by exact le_trans (by omega) h3)
    exact ⟨hf.stream, hf.session⟩

theorem Credit.flushBufferedFrames (h : v.Credit T learned) : v.Kept T learned v.flushBufferedFrames := by
  have hf : v.Kept T learned ((v.setSequencer
      { v.stream.sequencer with totalBytesRead := v.stream.sequencer.bytesReceived.sup }.clear).addBytesConsumed
      (v.stream.sequencer.bytesReceived.sup - v.stream.sequencer.totalBytesRead)) := by
    refine h.consume hW (fun he => ⟨?_, empty_clear _⟩) fun hrd => ?_
    · rw [he.sup, Nat.sub_self]
    · have hle := hrd.ordered.sup_le
      exact ⟨ordered_clear hle, (Nat.add_sub_of_le hrd.ordered.read_le_sup).symm, hle, rfl⟩
  exact hf.trans (hf.credit.maybeCloseStream hW hSF)

omit hW hSF in
theorem Credit.ignoreReadData (h : v.Credit T learned) :
    (v.setSequencer { v.stream.sequencer with ignoreReadData := true }).Credit T learned := by
  cases h with
  | reading h => exact .reading (h.rebuffer { h.ordered with } rfl rfl)
  | drained h => exact .drained { h with isOpen := { h.isOpen with } }
  | closed h => exact .closed { h with }

theorem Credit.stopReading (h : v.Credit T learned) : v.Kept T learned v.stopReading := by
  unfold Receiver.stopReading
  split
  · exact h.kept rfl rfl
  · exact (h.ignoreReadData.flushBufferedFrames hW hSF).since rfl rfl

theorem Credit.read (h : v.Credit T learned) (n : Nat) : v.Kept T learned (v.read n) := by
  have hf : v.Kept T learned ((v.setSequencer
      { v.stream.sequencer with
        totalBytesRead := v.stream.sequencer.totalBytesRead + min n v.stream.sequencer.readableBytes }).addBytesConsumed
      (min n v.stream.sequencer.readableBytes)) := by
    refine h.consume hW (fun he => ?_) fun hrd => ?_
    · rw [he.readableBytes, Nat.min_zero]
      exact ⟨rfl, he⟩
    · have h1 := hrd.ordered.read_le
      have h2 := hrd.ordered.prefixEnd_le
      have h3 : min n v.stream.sequencer.readableBytes ≤
          v.stream.sequencer.bytesReceived.prefixEnd - v.stream.sequencer.totalBytesRead := min_le_right _ _
      have hle : v.stream.sequencer.totalBytesRead + min n v.stream.sequencer.readableBytes ≤
          v.stream.sequencer.bytesReceived.prefixEnd := by omega
      exact ⟨{ hrd.ordered with read_le := hle }, rfl, le_trans hle h2, rfl⟩
  unfold Receiver.read
  dsimp only
  split
  next hc => exact hf.trans (hf.credit.onFinRead hW hSF hc)
  · exact hf

/-! ## Frames -/

omit hW hSF in
theorem setFinReceived_increase (v : Receiver) (fin : Bool) (n : Nat) :
    (v.setFinReceived fin).maybeIncreaseHighestReceivedOffset n =
      (v.maybeIncreaseHighestReceivedOffset n).setFinReceived fin := by
  by_cases h : n ≤ v.highest
  · have h' : n ≤ (v.setFinReceived fin).highest := h
    rw [maybeIncreaseHighestReceivedOffset, if_pos h', maybeIncreaseHighestReceivedOffset, if_pos h]
  · have h' : ¬n ≤ (v.setFinReceived fin).highest := h
    rw [maybeIncreaseHighestReceivedOffset, if_neg h', maybeIncreaseHighestReceivedOffset, if_neg h]
    rfl

omit hW hSF in
theorem Open.increase (h : v.Open T) {n : Nat} (hn : n ≤ T.S) :
    ∃ f g, v.maybeIncreaseHighestReceivedOffset n =
      { v with stream := { v.stream with flowController := f }, session := g } ∧
      ({ v with stream := { v.stream with flowController := f }, session := g } : Receiver).Open T ∧
      f.highestReceivedByteOffset = max v.highest n ∧ f.bytesConsumed = v.stream.flowController.bytesConsumed := by
  unfold maybeIncreaseHighestReceivedOffset
  split
  next hle => exact ⟨v.stream.flowController, v.session, rfl, h, (max_eq_left hle).symm, rfl⟩
  next hle =>
    have hc := h.charged
    have hco := h.consumed_le
    unfold highest at hle hc hco ⊢
    have hm : max v.stream.flowController.highestReceivedByteOffset n = n := max_eq_right (by omega)
    have hms : max v.session.highestReceivedByteOffset
        (v.session.highestReceivedByteOffset + (n - v.stream.flowController.highestReceivedByteOffset)) = T.bh + n := by
      rw [max_eq_right (Nat.le_add_right _ _)]
      omega
    have hcn : v.stream.flowController.bytesConsumed ≤ n := by omega
    simp only [updateHighestReceivedOffset_eq, hm, hms]
    exact ⟨_, _, rfl, ⟨h.notLocallyClosed, rfl, h.credited, hcn, hn, h.streamRoom, h.sessionRoom⟩, rfl, rfl⟩

omit hW hSF in
theorem Reading.increase (h : v.Reading T learned) {n : Nat} (hn : n ≤ T.S) :
    (v.maybeIncreaseHighestReceivedOffset n).Reading T learned ∧
      n ≤ (v.maybeIncreaseHighestReceivedOffset n).highest := by
  obtain ⟨f, g, he, ho, hh, hc⟩ := h.isOpen.increase hn
  rw [he]
  refine ⟨{ h with isOpen := ho, ordered := ?_, read := h.read.trans hc.symm }, ?_⟩
  · exact h.ordered.mono (le_trans (le_max_left _ n) (le_of_eq hh.symm))
  · exact le_trans (le_max_right _ n) (le_of_eq hh.symm)

omit hW hSF in
theorem Credit.extend (h : v.Credit T learned) {offset len : Nat} (hlen : 0 < len)
    (hreading : v.stream.readSideClosed = false → offset + len ≤ v.highest)
    (hread : v.stream.readSideClosed = true → offset + len ≤ v.stream.sequencer.totalBytesRead) {m : Nat}
    {r : IntervalSet}
    (hr : ({ v.stream.sequencer with highestOffset := m } : QuicStreamSequencer).onStreamData offset len =
      .ok (some r)) :
    (v.setSequencer { v.stream.sequencer with highestOffset := m, bytesReceived := r }).Reading T learned := by
  obtain ⟨hcov, rfl⟩ := onStreamData_eq hr
  have hopen : ¬v.stream.readSideClosed = true := by
    intro hc
    have he := h.empty hc
    have hle := hread hc
    rw [← he, QuicStreamSequencer.clear] at hcov
    rw [if_neg (by omega)] at hcov
    simp [covers] at hcov
    omega
  have hrd := h.toReading hopen
  have hadd := hrd.ordered.add hlen (hreading (Bool.eq_false_iff.2 hopen))
  exact hrd.rebuffer { hadd with } rfl rfl

theorem Credit.onFrameData (h : v.Credit T learned) {offset len : Nat} (hlen : 0 < len)
    (hreading : v.stream.readSideClosed = false → offset + len ≤ v.highest)
    (hread : v.stream.readSideClosed = true → offset + len ≤ v.stream.sequencer.totalBytesRead)
    (hv : v.onFrameData offset len = .ok v') : v.Kept T learned v' := by
  unfold Receiver.onFrameData at hv
  dsimp only at hv
  split at hv
  · cases hv
  · cases hv
    cases h with
    | reading h => exact Credit.kept (.reading (h.rebuffer { h.ordered with } rfl rfl)) rfl rfl
    | drained h => exact Credit.kept (.drained { h with isOpen := { h.isOpen with } }) rfl rfl
    | closed h => exact Credit.kept (.closed { h with }) rfl rfl
  next r hr =>
    have hnew := h.extend hlen hreading hread hr
    split at hv
    · cases hv
      exact (Credit.flushBufferedFrames hW hSF (.reading hnew)).since rfl rfl
    · cases hv
      exact Credit.kept (.reading hnew) rfl rfl

omit hW hSF in
theorem stream_onStreamClosed_onClose (hr : v.stream.readSideClosed = true) :
    v.onStreamClosed.onClose.stream = v.stream := by
  have hs : v.onStreamClosed.stream = v.stream := by
    unfold onStreamClosed
    split <;> rfl
  unfold onClose
  split
  · exact hs
  · rw [addBytesConsumed, hs, if_pos hr]

omit hW hSF in
theorem onFinRead_stream (v : Receiver) : v.onFinRead.stream.readSideClosed = true ∧
    v.onFinRead.stream.sequencer.totalBytesRead = v.stream.sequencer.totalBytesRead := by
  unfold onFinRead closeReadSide
  split
  next hr => exact ⟨hr, rfl⟩
  split
  · rw [stream_onStreamClosed_onClose rfl]
    exact ⟨rfl, rfl⟩
  · exact ⟨rfl, rfl⟩

omit hW hSF in
theorem closeStreamAtOffset_eq {offset : Nat} (hv : v.closeStreamAtOffset offset = .ok v') :
    v' = (v.setSequencer { v.stream.sequencer with closeOffset := some offset }).maybeCloseStream := by
  unfold closeStreamAtOffset at hv
  dsimp only at hv
  split at hv
  · cases hv
  split at hv
  · cases hv
  · cases hv
    rfl

theorem Reading.closeStreamAtOffset (h : v.Reading T learned)
    (hv : (v.setFinReceived true).closeStreamAtOffset T.F = .ok v') :
    v.Kept T true v' ∧ (v'.stream.readSideClosed = false → v'.highest = v.highest) ∧
      (v'.stream.readSideClosed = true → T.F ≤ v'.stream.sequencer.totalBytesRead) := by
  obtain ⟨w, hw⟩ : ∃ w, w = (v.setFinReceived true).setSequencer { v.stream.sequencer with closeOffset := some T.F } :=
    ⟨_, rfl⟩
  have hfin : w.Reading T true := by
    rw [hw]
    refine { h with isOpen := { h.isOpen with }, ordered := { h.ordered with }, learned := ?_, closeOffset := ?_ } <;>
    simp [setFinReceived, setSequencer]
  have hhi : w.highest = v.highest := by rw [hw]; rfl
  have hf : w.stream.flowController = v.stream.flowController := by rw [hw]; rfl
  have hs : w.session = v.session := by rw [hw]; rfl
  have hco : w.stream.sequencer.closeOffset = some T.F := by rw [hw]; rfl
  obtain rfl : v' = w.maybeCloseStream := by rw [hw]; exact closeStreamAtOffset_eq hv
  refine ⟨(Credit.maybeCloseStream hW hSF (.reading hfin)).since hf hs, ?_⟩
  have hopen := hfin.readSideClosed
  unfold maybeCloseStream
  split
  next hc =>
    have hF : T.F ≤ w.stream.sequencer.totalBytesRead := by
      rw [isClosed, hco] at hc
      simpa using hc
    split
    · obtain ⟨hr, ht⟩ := onFinRead_stream w
      exact ⟨fun hr' => (by cases hr.symm.trans hr'), fun _ => hF.trans (le_of_eq ht.symm)⟩
    · exact ⟨fun _ => hhi, fun hr => by cases hopen.symm.trans hr⟩
  · exact ⟨fun _ => hhi, fun hr => by cases hopen.symm.trans hr⟩

theorem Closed.onFinalByteOffsetReceived (h : v.Closed T learned) (hFS : T.F ≤ T.S)
    (hv : v.onFinalByteOffsetReceived T.F = .ok v') : v.Kept T true v' := by
  obtain ⟨x, hx, hh, hc, hl⟩ := h.share
  have hsr := h.sessionRoom
  unfold Receiver.onFinalByteOffsetReceived at hv
  rcases hl with ⟨hlc, hl⟩ | ⟨hlc, hl, hP⟩
  · rw [hlc] at hv
    dsimp only at hv
    split at hv
    · cases hv
    next hxF =>
    split at hv
    · cases hv
    cases hv
    have hev := QuicFlowController.Evolves.received .refl (f := v.session)
      (v.session.highestReceivedByteOffset + (T.F - x))
    obtain ⟨hsc, hsh, hsw⟩ := addBytesConsumed_eq
      (v.session.updateHighestReceivedOffset (v.session.highestReceivedByteOffset + (T.F - x))) (T.F - x)
    rw [updateHighestReceivedOffset_eq] at hsc hsh hsw hev ⊢
    dsimp only at hsc hsh hsw
    rw [max_eq_right (Nat.le_add_right _ _)] at hsc hsh hsw hev ⊢
    refine ⟨.closed ⟨h.readSideClosed, h.writeSideClosed, h.empty, le_trans h.sessionRoom hsw, T.F, hFS, ?_, ?_,
      .inr ?_⟩, fun hbc hb => ⟨.refl, .consumed hev _ (inBounds_addBytesConsumed (hev.inBounds hb.session) ?_)⟩⟩
    · dsimp only
      omega
    · dsimp only
      omega
    · exact ⟨rfl, rfl, fun _ => rfl⟩
    · dsimp only
      omega
  · rw [hlc] at hv
    cases hv
    exact Credit.kept (.closed { h with share := ⟨x, hx, hh, hc, .inr ⟨hlc, rfl, hP⟩⟩ }) rfl rfl

theorem Reading.sequence (h : v.Reading T learned) {offset len : Nat} {fin : Bool}
    (hhi : 0 < len → offset + len ≤ v.highest) (hfin : fin = true → offset + len = T.F)
    (hv : (v.setFinReceived fin).sequence offset len fin = .ok v') : v.Kept T (learned || fin) v' := by
  unfold Receiver.sequence at hv
  cases fin with
  | false =>
    have hset : v.setFinReceived false = v := by simp [setFinReceived]
    rw [hset] at hv
    rw [Bool.or_false]
    rw [if_neg Bool.false_ne_true] at hv
    split at hv
    · cases hv
      exact Credit.kept (.reading h) rfl rfl
    next hlen =>
      have hpos := Nat.pos_of_ne_zero hlen
      exact Credit.onFrameData hW hSF (.reading h) hpos (fun _ => hhi hpos)
        (fun hr => by cases h.readSideClosed.symm.trans hr) hv
  | true =>
    have hF := hfin rfl
    rw [if_pos rfl] at hv
    rw [Bool.or_true]
    split at hv
    · cases hv
    next w hw =>
    rw [hF] at hw
    obtain ⟨hk, hh, ht⟩ := h.closeStreamAtOffset (T := T) hW hSF hw
    split at hv
    · cases hv
      exact hk
    · -- up to the FIN, then the data that came with it
      next hlen =>
      have hpos := Nat.pos_of_ne_zero hlen
      exact hk.trans (hk.credit.onFrameData hW hSF hpos (fun hr => hh hr ▸ hhi hpos) (fun hr => hF ▸ ht hr) hv)

theorem Reading.onStreamFrame (h : v.Reading T learned) {offset len : Nat} {fin : Bool}
    (hS : offset + len ≤ T.S) (hfin : fin = true → offset + len = T.F) (hv : v.onStreamFrame offset len fin = .ok v') :
    v.Kept T (learned || fin) v' := by
  unfold Receiver.onStreamFrame at hv
  split at hv
  · cases hv
  split at hv
  · cases hv
  rw [if_neg (by simp [h.readSideClosed])] at hv
  dsimp only at hv
  split at hv
  · split at hv
    · cases hv
    · rw [setFinReceived_increase] at hv
      obtain ⟨hr, hle⟩ := h.increase hS
      have hk : v.Kept T learned _ := ⟨.reading hr, fun _ _ => v.flows_increase _⟩
      exact hk.trans (hr.sequence hW hSF (fun _ => hle) hfin hv)
  next hlen =>
    split at hv
    · cases hv
    · exact h.sequence hW hSF (fun hpos => absurd hpos hlen) hfin hv

theorem Credit.receiveStreamFrame (h : v.Credit T learned) {offset len : Nat} {fin : Bool}
    (hS : offset + len ≤ T.S) (hfin : fin = true → offset + len = T.F)
    (hv : v.receiveStreamFrame offset len fin = .ok v') : v.Kept T (learned || fin) v' := by
  unfold Receiver.receiveStreamFrame at hv
  cases h with
  | reading h =>
    rw [if_neg (by simp [QuicStream.closed, h.readSideClosed])] at hv
    exact h.onStreamFrame hW hSF hS hfin hv
  | drained h =>
    rw [if_neg (by simp [QuicStream.closed, h.writeSideClosed, Bool.and_false])] at hv
    unfold onStreamFrame at hv
    split at hv
    · cases hv
    split at hv
    · cases hv
    rw [if_pos h.readSideClosed] at hv
    cases hv
    have hfinal : (v.setFinReceived fin).stream.hasReceivedFinalOffset = true := by
      have hf := h.hasReceivedFinalOffset
      simp only [hasReceivedFinalOffset, Bool.or_eq_true] at hf
      simp only [setFinReceived, hasReceivedFinalOffset, Bool.or_eq_true]
      exact hf.imp_left .inl
    exact Credit.kept (.drained { h with
      isOpen := { h.isOpen with }
      learned := by rw [h.learned, Bool.true_or]
      hasReceivedFinalOffset := hfinal }) rfl rfl
  | closed h =>
    rw [if_pos (by rw [QuicStream.closed, h.readSideClosed, h.writeSideClosed]; rfl)] at hv
    cases fin with
    | false =>
      cases hv
      rw [Bool.or_false]
      exact Credit.kept (.closed h) rfl rfl
    | true =>
      have hF := hfin rfl
      rw [if_pos rfl, hF] at hv
      rw [Bool.or_true]
      exact h.onFinalByteOffsetReceived hW hSF (hF ▸ hS) hv

theorem Credit.receiveRstStream (h : v.Credit T learned) (hS : T.F ≤ T.S)
    (hv : v.receiveRstStream T.F = .ok v') : v.Kept T true v' := by
  have hreset : ∀ {w : Receiver}, w.Open T → w.onStreamReset T.F = .ok v' →
      ∃ u : Receiver, v' = u.closeReadSide ∧ w.Flows u ∧ u.Open T ∧ u.highest = T.F ∧ u.stream.rstReceived = true ∧
        u.stream.readSideClosed = w.stream.readSideClosed ∧ u.stream.writeSideClosed = w.stream.writeSideClosed ∧
        u.stream.sequencer = w.stream.sequencer := by
    intro w ho hw
    have ho' : ({ w with stream := { w.stream with rstReceived := true } } : Receiver).Open T := { ho with }
    have hi := flows_increase { w with stream := { w.stream with rstReceived := true } } T.F
    obtain ⟨f, g, he, hu, hhi, _⟩ := ho'.increase hS
    unfold onStreamReset at hw
    split at hw
    · cases hw
    split at hw
    · cases hw
    dsimp only at hw
    split at hw
    · cases hw
    cases hw
    rw [he] at hi ⊢
    refine ⟨_, rfl, ⟨hi.stream, hi.session⟩, hu, ?_, rfl, rfl, rfl, rfl⟩
    have hle : w.highest ≤ T.F := le_trans ho.highest_le hSF
    exact hhi.trans (max_eq_right hle)
  unfold Receiver.receiveRstStream at hv
  cases h with
  | reading h =>
    rw [if_neg (by simp [QuicStream.closed, h.readSideClosed])] at hv
    obtain ⟨u, rfl, hfl, hu, hF, hrst, hr, _, _⟩ := hreset h.isOpen hv
    have hk : u.Kept T true u.closeReadSide := by
      refine kept_closeReadSide hW hu (hr.trans h.readSideClosed) rfl ?_ hF
      rw [hasReceivedFinalOffset, hrst, Bool.or_true]
    exact ⟨hk.credit, fun hbc hb => hfl.trans (hk.flows hbc (hb.flows hfl))⟩
  | drained h =>
    rw [if_neg (by simp [QuicStream.closed, h.writeSideClosed, Bool.and_false])] at hv
    obtain ⟨u, rfl, hfl, hu, hF, hrst, hr, hw, hq⟩ := hreset h.isOpen hv
    rw [closeReadSide, if_pos (hr.trans h.readSideClosed)]
    refine ⟨.drained ⟨hu, hr.trans h.readSideClosed, hw.trans h.writeSideClosed, hq ▸ h.empty, rfl, ?_, hF⟩,
      fun _ _ => hfl⟩
    rw [hasReceivedFinalOffset, hrst, Bool.or_true]
  | closed h =>
    rw [if_pos (by rw [QuicStream.closed, h.readSideClosed, h.writeSideClosed]; rfl)] at hv
    exact h.onFinalByteOffsetReceived hW hSF hS hv

end

end

end Receiver

end Quictun
