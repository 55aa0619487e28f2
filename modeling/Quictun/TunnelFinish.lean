import Quictun.TunnelWake

/-!
# A clean finish

The peer finishes its side and nothing else goes wrong. Then there is one way to a
disconnected socket: `MaybeCloseAfterQuicFin()` finds the FIN read, the queue empty and no
send in flight, and only then is the tunnel's own FIN written; every close comes after that.
`tcp_receive_done_` marks the moment, so the invariant says what it means that it is set.
-/

namespace Quictun

open Stack List

namespace QuictunStream

def exhausted (s : QuictunStream) : Bool := s.fin && s.readable.isEmpty

structure Pristine (s : QuictunStream) : Prop where
  finished : s.finished = false
  readSideClosed : s.readSideClosed = true → s.exhausted = true
  readingStopped : s.readingStopped = false

end QuictunStream

open QuictunStream

/-! ## Clean runs -/

def Answer.clean (a : Answer) : Bool :=
  !a.connectionFails && a.received != some none && a.received != some (some []) && a.sent != some false

namespace World

/-- The TCP side neither ends nor fails, the stream is neither reset nor stopped, the connection stays up and
neither the sweep nor the flush wait closes the tunnel. -/
def clean (w : World) : Ev → Bool
  | .exec a => a.clean && w.todo.head? != some (.close .flushWaitExceeded true)
  | .receiveDone data => data != none && data != some []
  | .sendDone ok | .connectDone ok => ok
  | .dial result => result != some false
  | .streamReset _ | .stopSending _ | .connectionClosed | .ownerClose _ => false
  | _ => true

def arrive (r : Bytes × Bool) : Ev → Bytes × Bool
  | .streamFrame bs fin => if r.2 then r else (r.1 ++ bs, fin)
  | _ => r

def arrivals (s : QuictunStream) (es : List Ev) : Bytes × Bool := es.foldl arrive (s.readable, s.fin)

/-! ## What is read and what is left -/

structure Arrived (r : Bytes × Bool) (w : World) : Prop where
  bytes : r.1 = w.log.flatMap readOf ++ w.stream.readable
  fin : r.2 = w.stream.fin
  readSideClosed : w.stream.readSideClosed = true → w.stream.exhausted = true
  readingStopped : w.stream.readingStopped = true → w.stream.exhausted = true

/-- What a block may rely on; the blocks of a close come after the FIN was written. -/
@[simp] def allowed (w : World) : Op → Prop
  | .receiveComplete .failed | .receiveComplete (.slice []) | .sendComplete .failed | .connectComplete .failed
  | .reset => False
  | .close reason b => w.tunnel.tcpReceiveDone = true ∧ (b = true → reason = .flushWaitExceeded)
  | .closeAfterStopReading b | .closeAfterDisconnect b | .onClosed b | .onClosedReturned b | .closeAfterOnClosed b =>
    w.tunnel.tcpReceiveDone = true ∧ b = false
  | .onStreamGone | .stopReading | .disconnect => w.tunnel.tcpReceiveDone = true
  | .writeToStream _ fin => fin = true → w.tunnel.tcpReceiveDone = true
  | .fillAfterRead data fin => (fin = true → w.stream.exhausted = true) ∧ (w.tunnel.tcpReceiveDone = true → data = [])
  | .maybeCloseAfterQuicFin => w.tunnel.pendingToTcp = [] ∧ w.tunnel.tcpSendInFlight = false
  | _ => True

structure Finishing (w : World) : Prop where
  quicReceiveDone : w.tunnel.quicReceiveDone = true → w.stream.exhausted = true
  sent : w.tunnel.tcpReceiveDone = true →
    ∃ seed, .start seed ∈ w.log ∧ w.log.flatMap sentOf = seed ++ w.log.flatMap readOf
  exhausted : w.tunnel.tcpReceiveDone = true → w.stream.exhausted = true
  queue : w.tunnel.tcpReceiveDone = true → w.tunnel.pendingToTcp = []
  sending : w.tunnel.tcpReceiveDone = true → w.tunnel.tcpSendInFlight = false ∧ w.socket.sending = false
  finished : w.stream.finished = true → w.tunnel.tcpReceiveDone = true
  disconnected : .disconnect ∈ w.log → w.tunnel.tcpReceiveDone = true
  todo : ∀ op ∈ w.todo, w.allowed op

structure Clean (r : Bytes × Bool) (w : World) : Prop extends Arrived r w, Finishing w

variable {w w' : World} {op : Op}

theorem allowed_mono (hd : op.deferred = true)
    (h : w.allowed op) (ht : w.tunnel.tcpReceiveDone = true → w'.tunnel.tcpReceiveDone = true)
    (he : w.stream.exhausted = true → w'.stream.exhausted = true)
    (hr : w'.tunnel.tcpReceiveDone = true → w.tunnel.tcpReceiveDone = true ∨ reading op = false) : w'.allowed op := by
  cases op with
  | fillAfterRead data fin =>
    refine ⟨fun hf => he (h.1 hf), fun hd' => ?_⟩
    obtain hd' | hn := hr hd'
    · exact h.2 hd'
    · cases hn
  | closeAfterStopReading | closeAfterDisconnect | onClosedReturned => exact ⟨ht h.1, h.2⟩
  | connectComplete st | receiveComplete st | sendComplete st => cases st <;> first | (cases hd; done) | trivial
  | _ => first | (cases hd; done) | trivial

section
variable {r : Bytes × Bool} {w : World} (h : Clean r w)
include h

theorem Clean.push {ops : List Op} (hops : ∀ op ∈ ops, w.allowed op) : Clean r (w.push ops) := by
  refine { h with todo := fun op hop => ?_ }
  obtain hop | hop := mem_append.1 hop
  · exact hops op hop
  · exact h.todo op hop

theorem Clean.record {c : Call} (hr : readOf c = []) (hs : sentOf c = [])
    (hd : c = .disconnect → w.tunnel.tcpReceiveDone = true) : Clean r (w.record c) := by
  have hread : (w.log ++ [c]).flatMap readOf = w.log.flatMap readOf := by simp [hr]
  have hsent : (w.log ++ [c]).flatMap sentOf = w.log.flatMap sentOf := by simp [hs]
  refine { h with bytes := ?_, sent := ?_, disconnected := ?_ }
  · rw [World.record, hread]
    exact h.bytes
  · intro ht
    obtain ⟨seed, hm, he⟩ := h.sent ht
    refine ⟨seed, mem_append_left _ hm, ?_⟩
    rw [World.record, hread, hsent, he]
  · intro hm
    obtain hm | hm := mem_append.1 hm
    · exact h.disconnected hm
    · exact hd (mem_singleton.1 hm).symm

theorem Clean.noteActivity : Clean r w.noteActivity := { h with }

theorem Clean.updateIdleClass : Clean r w.updateIdleClass := { h with }

theorem Clean.receiveArrived {data : Received} : Clean r (w.receiveArrived data) :=
  { h.record (c := .receiveComplete data) rfl rfl nofun with }

theorem Clean.sendArrived (hd : ∀ op ∈ w.todo, op.deferred = true) : Clean r w.sendArrived :=
  { h with
    sending := fun ht => ⟨rfl, (h.sending ht).2⟩
    todo := fun op hop => allowed_mono (hd op hop) (h.todo op hop) id id .inl }

theorem Clean.cancelAlarm : Clean r w.cancelAlarm := { h with }

theorem Clean.maybeFinalizeClose : Clean r w.maybeFinalizeClose := by
  unfold World.maybeFinalizeClose
  split
  · exact h
  rename_i hg
  have ht : w.tunnel.tcpReceiveDone = true := by
    rw [Bool.or_eq_true, not_or] at hg
    simpa using hg.2
  split
  · refine h.cancelAlarm.push fun op hop => ?_
    obtain rfl := mem_singleton.1 hop
    exact ⟨ht, nofun⟩
  split
  · refine h.cancelAlarm.push fun op hop => ?_
    obtain rfl := mem_singleton.1 hop
    exact ⟨ht, fun _ => rfl⟩
  · unfold armAlarm
    split
    · split
      · exact { h with }
      · exact h
    · exact { h with }

end

/-! ## One block -/

section
variable {r : Bytes × Bool} {w : World} (h : Clean r w) (hd : ∀ op ∈ w.todo, op.deferred = true)
include h hd

theorem clean_start {seed : Bytes} (hn : w.tunnel.tcpReceiveDone = false) : Clean r (w.start seed) := by
  have hl : Clean r (w.launch seed) := by
    have hnot : w.tunnel.tcpReceiveDone ≠ true := Bool.eq_false_iff.1 hn
    refine { h with bytes := ?_, sent := (absurd · hnot), queue := (absurd · hnot), disconnected := ?_, todo := ?_ }
    · simpa [launch, readOf] using h.bytes
    · intro hm
      obtain hm | hm := mem_append.1 hm
      · exact h.disconnected hm
      · cases mem_singleton.1 hm
    · exact fun op hop => allowed_mono (hd op hop) (h.todo op hop) id id .inl
  exact hl.noteActivity.push (by simp)

theorem clean_sendComplete {status : Status} (hs : w.allowed (.sendComplete status))
    (hc : status = .cancelled → w.tunnel.closed = true) : Clean r (w.sendComplete status) := by
  unfold sendComplete
  split
  · exact h.sendArrived hd
  rename_i ho
  cases status with
  | ok => exact (h.sendArrived hd).push (by simp)
  | failed => exact hs.elim
  | cancelled => exact absurd (hc rfl) ho

theorem clean_fillAfterRead {data : Bytes} {fin : Bool} (hf : w.allowed (.fillAfterRead data fin)) :
    Clean r (w.fillAfterRead data fin) := by
  have he : Clean r (w.enqueue data) := by
    unfold enqueue
    split
    · exact h
    next hne =>
      refine { h with queue := fun ht => ?_, todo := fun op hop => ?_ }
      · rw [hf.2 ht] at hne
        exact absurd rfl hne
      · exact allowed_mono (hd op hop) (h.todo op hop) id id .inl
  have hs : (w.enqueue data).stream = w.stream := by unfold enqueue; split <;> rfl
  unfold fillAfterRead
  split
  next hfin =>
    have hq : Clean r (w.enqueue data).quicFinished :=
      { he with quicReceiveDone := fun _ => hs ▸ hf.1 hfin }
    exact hq.updateIdleClass
  split
  · exact h.updateIdleClass
  · exact he.push (by simp)

theorem clean_maybeFlushQuicToTcp : Clean r w.maybeFlushQuicToTcp := by
  unfold maybeFlushQuicToTcp
  split
  · exact h
  rename_i hg
  split
  next hp =>
    refine h.push fun op hop => ?_
    obtain rfl := mem_singleton.1 hop
    exact ⟨hp, by simp_all⟩
  next c rest hp =>
    have hq : Clean r (w.dequeued rest) := by
      have hnot : w.tunnel.tcpReceiveDone ≠ true := fun ht => by cases hp.symm.trans (h.queue ht)
      refine { h with queue := (absurd · hnot), sending := (absurd · hnot), todo := fun op hop => ?_ }
      exact allowed_mono (hd op hop) (h.todo op hop) id id .inl
    exact hq.push (by simp)

theorem clean_maybeCloseAfterQuicFin (hi : Fidelity { w with todo := .maybeCloseAfterQuicFin :: w.todo })
    (ha : w.allowed .maybeCloseAfterQuicFin) : Clean r w.maybeCloseAfterQuicFin := by
  unfold maybeCloseAfterQuicFin
  split
  · exact h
  rename_i hg
  rw [Bool.or_eq_true, not_or] at hg
  have hopen : w.tunnel.closed = false := by simpa using hg.1
  have hquic : w.tunnel.quicReceiveDone = true := by simpa using hg.2
  split
  · exact h.push (by simp)
  -- nothing is on its way to the queue or to the socket, so what was read has been sent
  have hread : has reading w.todo = false := Above.not_has hi.readTop rfl
  obtain ⟨seed, hseed⟩ := hi.towardsTcp.begun (hi.running rfl)
  have hb := hi.towardsTcp.balance hopen seed hseed
  have hsend : w.socket.sending = false := by
    by_contra hs
    rw [Bool.not_eq_false] at hs
    cases ha.2.symm.trans (hi.sending hopen hs)
  have hsent : w.log.flatMap sentOf = seed ++ w.log.flatMap readOf := by
    simp only [flatMap_cons, inRead_nil hread, inSend_nil hd, ha.1] at hb
    simpa [inSend, inRead] using hb.symm
  have hdone : Clean r w.sendDone := by
    refine { h with
      sent := fun _ => ⟨seed, hseed, hsent⟩, exhausted := fun _ => h.quicReceiveDone hquic, queue := fun _ => ha.1,
      sending := fun _ => ⟨ha.2, hsend⟩, finished := fun _ => rfl, disconnected := fun _ =>
        rfl, todo := fun op hop => ?_ }
    refine allowed_mono (hd op hop) (h.todo op hop) (fun _ => rfl) id fun _ => .inr ?_
    by_contra hr
    rw [Bool.not_eq_false] at hr
    cases hread.symm.trans (has_of_mem hop hr)
  exact hdone.push (by simp [sendDone])

end

/-! ## Calls on the stream -/

section
variable {r : Bytes × Bool} {w : World}

variable {a : Answer}

theorem clean_afterCall (h : Finishing w) (hd : ∀ op ∈ w.todo, op.deferred = true)
    (ha : a.connectionFails = false) {q : QuictunStream × Bool} {ops : List Op}
    (harr : Arrived r { w with stream := q.1 }) (he : w.stream.exhausted = true → q.1.exhausted = true)
    (hfin : q.1.finished = true → w.tunnel.tcpReceiveDone = true) (hgone : q.2 = true → q.1.finished = true)
    (hops : ∀ op ∈ ops, ({ w with stream := q.1 } : World).allowed op) : Clean r (w.afterCall a q ops) := by
  have hc : Clean r { w with stream := q.1, connected := w.connected && true } :=
    { harr, h with
      quicReceiveDone := fun hq => he (h.quicReceiveDone hq)
      exhausted := fun ht => he (h.exhausted ht)
      finished := hfin
      todo := fun op hop => allowed_mono (hd op hop) (h.todo op hop) id he .inl }
  simp only [afterCall, ha, Bool.false_and, Bool.false_eq_true, if_false, Bool.or_false, Bool.not_false]
  refine hc.push fun op hop => ?_
  split at hop
  next hg =>
    obtain rfl | hop := mem_cons.1 hop
    · exact hfin (hgone hg)
    · exact hops op hop
  · exact hops op hop

theorem read_exhausted (s : QuictunStream) : (s.read kReadSize).1 ++ (s.read kReadSize).2.2.1.readable = s.readable ∧
    (s.read kReadSize).2.2.1.fin = s.fin ∧ (s.read kReadSize).2.2.1.finished = s.finished ∧
    (s.read kReadSize).2.2.1.readingStopped = s.readingStopped ∧
    ((s.read kReadSize).2.2.1.readSideClosed = true → s.readSideClosed = true ∨ (s.read kReadSize).2.1 = true) ∧
    ((s.read kReadSize).2.1 = true → (s.read kReadSize).2.2.1.exhausted = true) ∧
    ((s.read kReadSize).2.2.2 = true → s.finished = true) := by
  unfold QuictunStream.read QuictunStream.closeReadSide QuictunStream.exhausted QuictunStream.finished
  simp only
  split
  next hf =>
    rw [Bool.and_eq_true, List.isEmpty_iff] at hf
    have htake : s.readable.take kReadSize = s.readable := by
      conv_rhs => rw [← take_append_drop kReadSize s.readable, hf.2, append_nil]
    split <;> simp_all
  · simp

variable {s : QuictunStream}

theorem read_of_exhausted (h : s.exhausted = true) : (s.read kReadSize).1 = [] ∧
    (s.read kReadSize).2.2.1.exhausted = true := by
  obtain ⟨hb, hf, -⟩ := read_exhausted s
  obtain ⟨hfin, hr⟩ := Bool.and_eq_true_iff.1 h
  rw [isEmpty_iff.1 hr, append_eq_nil_iff] at hb
  exact ⟨hb.1, by simp [exhausted, hf, hfin, hb.2]⟩

theorem clean_read (h : Clean r w) (hd : ∀ op ∈ w.todo, op.deferred = true)
    (ha : a.connectionFails = false) : Clean r (w.read a) := by
  obtain ⟨hb, hf, hfin, hst, hcl, htook, hgone⟩ := read_exhausted w.stream
  have he : w.stream.exhausted = true → (w.stream.read kReadSize).2.2.1.exhausted = true := fun he =>
    (read_of_exhausted he).2
  have hrec : Finishing (w.record (.read (w.stream.read kReadSize).1)) := by
    refine { h with sent := fun ht => ?_, disconnected := fun hm => ?_ }
    · have hempty := (read_of_exhausted (h.exhausted ht)).1
      obtain ⟨seed, hm, hs⟩ := h.sent ht
      refine ⟨seed, mem_append_left _ hm, ?_⟩
      simpa [record, hempty, readOf, sentOf] using hs
    · obtain hm | hm := mem_append.1 hm
      · exact h.disconnected hm
      · cases mem_singleton.1 hm
  refine clean_afterCall hrec hd ha ⟨?_, ?_, ?_, ?_⟩ he ?_ ?_ ?_
  · rw [h.bytes]
    simp [record, readOf, hb]
  · exact h.fin.trans hf.symm
  · intro hc
    obtain hc | hc := hcl hc
    · exact he (h.readSideClosed hc)
    · exact htook hc
  · intro hs
    exact he (h.readingStopped (hst ▸ hs))
  · intro hfi
    exact h.finished (hfin ▸ hfi)
  · intro hg
    exact hfin.trans (hgone hg)
  · intro op hop
    obtain rfl := mem_singleton.1 hop
    exact ⟨htook, fun ht => (read_of_exhausted (h.exhausted ht)).1⟩

theorem writeToStream_readSide (s : QuictunStream) (data : Bytes) (fin : Bool) (k : Nat) (finTaken : Bool) :
    (s.writeToStream data fin k finTaken).1.readSideClosed = s.readSideClosed ∧
    (s.writeToStream data fin k finTaken).1.readingStopped = s.readingStopped ∧
    ((s.writeToStream data fin k finTaken).2 = true →
      (s.writeToStream data fin k finTaken).1.writeSideClosed = true) := by
  unfold QuictunStream.writeToStream QuictunStream.writeBufferedData QuictunStream.closeWriteSide
  grind

theorem clean_writeToStream (h : Clean r w) (hd : ∀ op ∈ w.todo, op.deferred = true)
    (ha : a.connectionFails = false) {data : Bytes} {fin : Bool} (hw : w.allowed (.writeToStream data fin)) :
    Clean r (w.writeToStream a data fin) := by
  obtain ⟨hr, -, hf, -, hfin⟩ := writeToStream_spec w.stream data fin a.taken a.finTaken
  obtain ⟨hcl, hst, hgone⟩ := writeToStream_readSide w.stream data fin a.taken a.finTaken
  have hrec := h.record (c := .writeToStream data fin) rfl rfl nofun
  have he : w.stream.exhausted = true → (w.stream.writeToStream data fin a.taken a.finTaken).1.exhausted = true := by
    simp [exhausted, hr, hf]
  refine clean_afterCall hrec.toFinishing hd ha ⟨?_, ?_, ?_, ?_⟩ he ?_ ?_ ?_
  · rw [hr]
    exact hrec.bytes
  · exact h.fin.trans hf.symm
  · intro hc
    exact he (h.readSideClosed (hcl ▸ hc))
  · intro hs
    exact he (h.readingStopped (hst ▸ hs))
  · intro hfi
    obtain hfi | hfi := hfin hfi
    · exact h.finished hfi
    · exact hw hfi
  · intro hg
    simp [finished, hgone hg]
  · simp

theorem stopReading_of_exhausted (h : s.exhausted = true) (finReached : Bool) :
    (s.stopReading finReached).1.readable = s.readable ∧ (s.stopReading finReached).1.fin = s.fin ∧
    (s.stopReading finReached).1.finished = s.finished ∧
    ((s.stopReading finReached).2 = true → s.finished = true) := by
  obtain ⟨hf, hr⟩ := Bool.and_eq_true_iff.1 h
  rw [List.isEmpty_iff] at hr
  unfold QuictunStream.stopReading QuictunStream.closeReadSide QuictunStream.finished
  grind

theorem clean_stopReading (h : Clean r w) (hd : ∀ op ∈ w.todo, op.deferred = true)
    (ha : a.connectionFails = false) (hs : w.allowed .stopReading) : Clean r (w.stopReading a) := by
  have hex := h.exhausted hs
  obtain ⟨hr, hf, hfin, hgone⟩ := stopReading_of_exhausted hex a.finReached
  have he : (w.stream.stopReading a.finReached).1.exhausted = true := by
    rwa [exhausted, hr, hf]
  refine clean_afterCall h.toFinishing hd ha ⟨?_, ?_, fun _ => he, fun _ => he⟩ (fun _ => he) (fun _ => hs) ?_ ?_
  · rw [hr]
    exact h.bytes
  · exact h.fin.trans hf.symm
  · intro hg
    exact hfin.trans (hgone hg)
  · simp

theorem clean_close (h : Clean r w) {reason : CloseReason} {b : Bool} (hc : w.allowed (.close reason b))
    (hne : (.close reason b : Op) ≠ .close .flushWaitExceeded true) : Clean r (w.close reason b) := by
  have hb : b = false := by
    cases b with
    | false => rfl
    | true => exact absurd (by rw [hc.2 rfl]) hne
  have hrec := h.record (c := .close reason) rfl rfl nofun
  have hs : Clean r (w.shut reason) := { hrec with }
  have hd : (w.shut reason).tunnel.tcpReceiveDone = true := hc.1
  unfold close
  split <;> exact hs.push (by simp [hd, hb])

theorem clean_disconnect (h : Clean r w) (hd : w.tunnel.tcpReceiveDone = true) : Clean r w.disconnect := by
  have hrec := h.record (c := .disconnect) rfl rfl (fun _ => hd)
  have hs : Clean r (record { w with socket := {} } .disconnect) :=
    { hrec with sending := fun ht => ⟨(hrec.sending ht).1, rfl⟩ }
  refine hs.push ?_
  unfold cancelled
  split <;> split <;> split <;> simp [allowed]

end

/-! ## Whole runs -/

variable {r : Bytes × Bool}

theorem exec_clean {rest : List Op} {a : Answer} (hi : Fidelity w) (h : Clean r w)
    (ht : w.todo = op :: rest) (ha : a.clean = true) (hne : op ≠ .close .flushWaitExceeded true) :
    Clean r ((w.pop rest).exec a op) := by
  have hd : ∀ o ∈ rest, o.deferred = true := fun o ho => hi.below o (by rw [ht]; exact ho)
  have hop : w.allowed op := h.todo op (ht ▸ mem_cons_self)
  have hv : Clean r (w.pop rest) :=
    { h with todo := fun o ho => h.todo o (ht ▸ mem_cons_of_mem _ ho) }
  have hcl : op.closing = true → w.tunnel.closed = true := fun hc => hi.closing (by rw [ht, has_cons, hc]; rfl)
  simp only [Answer.clean, Bool.and_eq_true, Bool.not_eq_true', bne_iff_ne] at ha
  obtain ⟨⟨⟨hup, hre⟩, heof⟩, hse⟩ := ha
  cases op with
  | start seed =>
    refine clean_start hv hd ?_
    by_contra hn
    rw [Bool.not_eq_false] at hn
    obtain ⟨s, hm, -⟩ := h.sent hn
    exact (hi.towardsTcp.fresh (hi.top (.start seed) (by rw [ht]; rfl)).2.1).2.2 s hm
  | sendComplete st => exact clean_sendComplete hv hd hop (fun hc => hcl (by rw [hc]; rfl))
  | fillAfterRead d f => exact clean_fillAfterRead hv hd hop
  | maybeFlushQuicToTcp => exact clean_maybeFlushQuicToTcp hv hd
  | maybeCloseAfterQuicFin => exact clean_maybeCloseAfterQuicFin hv hd (by rwa [← ht]) hop
  | maybeFinalizeClose | onFlushCloseAlarm => exact hv.maybeFinalizeClose
  | read => exact clean_read hv hd hup
  | writeToStream d f => exact clean_writeToStream hv hd hup hop
  | stopReading => exact clean_stopReading hv hd hup hop
  | close reason b => exact clean_close hv hop hne
  | disconnect => exact clean_disconnect hv hop
  | reset => exact hop.elim
  | onStreamGone =>
    simp only [exec, onStreamGone]
    split
    · exact hv
    · have hdone : w.tunnel.tcpReceiveDone = true := hop
      exact hv.push (by simp [hdone])
  | connectComplete st =>
    simp only [exec, connectComplete]
    split
    · exact hv
    rename_i ho
    cases st with
    | ok => exact hv.push (by simp)
    | failed => exact hop.elim
    | cancelled => exact absurd (hcl rfl) ho
  | receiveComplete data =>
    simp only [exec, receiveComplete]
    split
    · exact hv.receiveArrived
    rename_i ho
    obtain (_ | ⟨b, bs⟩) | _ | _ := data
    · exact hop.elim
    · exact hv.receiveArrived.noteActivity.push (by simp)
    · exact hop.elim
    · exact absurd (hcl rfl) ho
  | receiveAsync =>
    have hrec := hv.record (c := .receiveAsync) rfl rfl (by simp)
    simp only [exec, receiveAsync]
    split
    next data hdata =>
      refine hrec.push fun op hm => ?_
      obtain rfl := mem_singleton.1 hm
      obtain _ | _ | ⟨b, bs⟩ := data
      · exact hre hdata
      · exact heof hdata
      · trivial
    · exact { hrec with }
  | sendAsync chunk =>
    -- a send is in flight while its chunk is being handed over, so the tunnel has not finished
    have hfl : w.tunnel.tcpSendInFlight = true := (hi.top (.sendAsync chunk) (by rw [ht]; rfl)).2.1
    have hnot : w.tunnel.tcpReceiveDone ≠ true := fun hd => by cases hfl.symm.trans (h.sending hd).1
    have hs : ∀ k : Socket, Clean r (record { w with todo := rest, socket := k } (.sendAsync chunk)) := by
      refine fun k => { hv with bytes := ?_, sent := (absurd · hnot), sending := (absurd · hnot), disconnected := ?_ }
      · simpa [record, readOf] using h.bytes
      · simpa [record] using h.disconnected
    simp only [exec, sendAsync]
    split
    next ok hok =>
      refine (hs _).push fun op hm => ?_
      obtain rfl := mem_singleton.1 hm
      cases ok with
      | true => trivial
      | false => exact hse hok
    · exact hs _
  | onClosed b =>
    have hrec := hv.record (c := .onClosed) rfl rfl (by simp)
    refine clean_afterCall hrec.toFinishing hd hup { hrec with } id h.finished (by simp) ?_
    intro op hm
    obtain rfl := mem_singleton.1 hm
    exact hop
  | onClosedReturned b =>
    have hrec := hv.record (c := .onClosedReturned) rfl rfl (by simp)
    refine hrec.push fun op hm => ?_
    obtain rfl := mem_singleton.1 hm
    exact hop
  | closeAfterOnClosed b =>
    obtain ⟨-, rfl⟩ := hop
    exact hv
  | closeAfterStopReading b =>
    obtain ⟨hdone, rfl⟩ := hop
    simp only [exec, closeAfterStopReading]
    split
    · have hs : Clean r (disconnected (w.pop rest)) := { hv with }
      exact hs.push (by simp [disconnected, hdone])
    · exact hv.push (by simp [hdone])
  | closeAfterDisconnect b =>
    obtain ⟨hdone, rfl⟩ := hop
    simp only [exec, closeAfterDisconnect]
    split
    · have hs : Clean r (onClosedTaken (w.pop rest)) := { hv with }
      exact hs.push (by simp [onClosedTaken, hdone])
    · exact hv.push (by simp [hdone])
  | onStreamCanWriteMore =>
    simp only [exec, onStreamCanWriteMore]
    split
    · exact hv
    split
    · exact hv.push (by simp)
    split
    · exact hv.updateIdleClass
    · exact hv.updateIdleClass.push (by simp)
  | onStreamDataAvailable =>
    simp only [exec, onStreamDataAvailable]
    split
    · exact hv
    · exact hv.push (by simp)
  | fillQueueFromStream =>
    simp only [exec, fillQueueFromStream]
    split
    · exact hv.push (by simp)
    · exact hv.updateIdleClass
  | beginReadFromTcp =>
    simp only [exec, beginReadFromTcp]
    split
    · exact hv
    · have hs : Clean r (receiveBegun (w.pop rest)) := { hv with }
      exact hs.push (by simp)
  | receiveAfterWrite =>
    simp only [exec, receiveAfterWrite]
    split <;> exact hv.push (by simp)
  | receiveEnd | flushEnd => exact hv.updateIdleClass

theorem onCanWrite_readSide (s : QuictunStream) (k : Nat) (finTaken : Bool) :
    (s.onCanWrite k finTaken).1.readSideClosed = s.readSideClosed ∧
    (s.onCanWrite k finTaken).1.readingStopped = s.readingStopped ∧
    ((s.onCanWrite k finTaken).2 = some .gone → (s.onCanWrite k finTaken).1.finished = true) ∧
    (s.onCanWrite k finTaken).2 ≠ some .dataAvailable := by
  unfold onCanWrite writeBufferedData closeWriteSide finished
    QuictunStream.goneIf
  grind

theorem Clean.notified {r r' : Bytes × Bool} {w : World} (h : Clean r w)
    {q : QuictunStream × Option QuictunStream.Notice}
    (harr : Arrived r' { w with stream := q.1 }) (he : w.stream.exhausted = true → q.1.exhausted = true)
    (hfin : q.1.finished = true → w.stream.finished = true) (hgone : q.2 = some .gone → q.1.finished = true) :
    Clean r' (w.notified q) := by
  obtain ⟨s, n⟩ := q
  refine
    { harr, h with
      quicReceiveDone := fun hq => he (h.quicReceiveDone hq)
      exhausted := fun ht => he (h.exhausted ht)
      finished := fun hf => h.finished (hfin hf)
      todo := fun op hop => ?_ }
  obtain _ | _ | _ | _ := n
  · cases hop
  · obtain rfl := mem_singleton.1 hop
    exact h.finished (hfin (hgone rfl))
  · obtain rfl := mem_singleton.1 hop
    trivial
  · obtain rfl := mem_singleton.1 hop
    trivial

theorem clean_streamFrame (h : Clean r w) (bs : Bytes) (fin : Bool) :
    Clean (arrive r (.streamFrame bs fin)) (w.notified (w.stream.onStreamFrame bs fin)) := by
  by_cases hf : w.stream.fin = true
  · have hr : arrive r (.streamFrame bs fin) = r := if_pos (h.fin.trans hf)
    have hs : w.stream.onStreamFrame bs fin = (w.stream, none) := if_pos (by simp [hf])
    rw [hr, hs]
    exact h.notified { h with } id id nofun
  · have hex : w.stream.exhausted ≠ true := fun he => hf (Bool.and_eq_true_iff.1 he).1
    have hcl : w.stream.readSideClosed = false := by simpa using fun hc => hex (h.readSideClosed hc)
    have hst : w.stream.readingStopped = false := by simpa using fun hc => hex (h.readingStopped hc)
    have hr : arrive r (.streamFrame bs fin) = (r.1 ++ bs, fin) := if_neg (by rw [h.fin]; exact hf)
    have hs : (w.stream.onStreamFrame bs fin).1 =
      { w.stream with readable := w.stream.readable ++ bs, fin := fin } := by
      simp [onStreamFrame, hcl, hf, hst]
    have hn : (w.stream.onStreamFrame bs fin).2 ≠ some .gone := by
      simp only [onStreamFrame, hcl, hst, Bool.false_or, Bool.false_eq_true, if_false, if_neg hf]
      split <;> simp
    rw [hr]
    refine h.notified ⟨?_, ?_, ?_, ?_⟩ (fun he => absurd he hex) ?_ (fun hg => absurd hg hn)
    · simp [hs, h.bytes]
    · rw [hs]
    · rw [hs]
      exact fun hc => by cases hcl.symm.trans hc
    · rw [hs]
      exact fun hc => by cases hst.symm.trans hc
    · rw [hs]
      exact id

variable {e : Ev}

theorem deliver_clean (h : Clean r w) (hc : w.clean e = true) (ht : w.todo = [])
    (hw : w.deliver e = some w') : Clean (arrive r e) w' := by
  -- one function is called, and nothing else changes that the invariant speaks about
  have key : ∀ (x : Bool) (y : Option (Option Time)) (k : Socket) (ops : List Op),
      (w.socket.sending = false → k.sending = false) → (∀ op ∈ ops, ∀ w : World, w.allowed op) →
      Clean r { w with
        tunnel := { w.tunnel with hasSocket := x, flushCloseAlarm := y }, socket := k, todo := ops } := by
    intro x y k ops hk hops
    exact
      { h with
        sending := fun hd => (h.sending hd).imp_right hk
        todo := fun op hop => hops op hop _ }
  cases deliver_cases hw with
  | streamFrame bs fin => exact clean_streamFrame h bs fin
  | canWrite k f =>
    obtain ⟨hr, -, hf, hfin, -⟩ := onCanWrite_spec w.stream k f
    obtain ⟨hcl, hst, hgone, -⟩ := onCanWrite_readSide w.stream k f
    have he : w.stream.exhausted = true → (w.stream.onCanWrite k f).1.exhausted = true := by
      simp [exhausted, hr, hf]
    refine h.notified ⟨?_, h.fin.trans hf.symm, fun hc => he (h.readSideClosed (hcl ▸ hc)),
      fun hs => he (h.readingStopped (hst ▸ hs))⟩ he hfin hgone
    rw [hr]
    exact h.bytes
  | ack k f => exact h.notified { h with } id id nofun
  | dials => exact key true _ { w.socket with status := .connecting } w.todo id (by simp [ht])
  | dialled _ _ ok =>
    cases ok with
    | false => cases hc
    | true => exact key true _ { w.socket with status := .connected } _ id (by simp [Status.ofBool, allowed])
  | start seed => exact key _ _ w.socket [.start seed] id (by simp)
  | connectDone _ ok =>
    cases ok with
    | false => cases hc
    | true => exact key _ _ { w.socket with status := .connected } _ id (by simp [Status.ofBool, allowed])
  | receiveDone _ data =>
    refine key _ _ { w.socket with receiving := false } _ id fun op hop v => ?_
    obtain rfl := mem_singleton.1 hop
    obtain _ | _ | ⟨b, bs⟩ := data
    · cases hc
    · cases hc
    · trivial
  | sendDone _ ok =>
    cases ok with
    | false => cases hc
    | true => exact key _ _ { w.socket with sending := false } _ (fun _ => rfl) (by simp [Status.ofBool, allowed])
  | alarm => exact key _ (some none) w.socket [.onFlushCloseAlarm] id (by simp)
  | _ => cases hc

theorem step_clean (hi : Fidelity w) (h : Clean r w) (hc : w.clean e = true)
    (hw : w.step e = some w') : Clean (arrive r e) w' := by
  unfold step at hw
  split at hw
  next a =>
    split at hw
    · cases hw
    next op rest ht =>
      cases hw
      simp only [clean, ht, head?_cons, Bool.and_eq_true, bne_iff_ne, ne_eq, Option.some.injEq] at hc
      exact exec_clean hi h ht hc.1 hc.2
  · cases hw
    exact { h with }
  · split at hw
    · cases hw
      exact { h with }
    · cases hw
  · split at hw
    next ht => exact deliver_clean h hc ht hw
    · cases hw

theorem init_clean {s : QuictunStream} (hs : s.Pristine) (client : Bool) (seed : Bytes) (me : Nat)
    (k : QuictunIdleTracker Nat) (now : Time) : Clean (s.readable, s.fin) (init client seed s me k now) where
  bytes := rfl
  fin := rfl
  readSideClosed := hs.readSideClosed
  readingStopped hr := by cases hs.readingStopped.symm.trans hr
  quicReceiveDone hq := by cases hq
  sent := nofun
  exhausted := nofun
  queue := nofun
  sending := nofun
  finished hf := by cases hs.finished.symm.trans hf
  disconnected hm := by cases hm
  todo _ hop := by cases hop

/-- **A clean finish delivers everything.** In a clean run, once the socket is disconnected, the FIN has been reached
and all that arrived before it went to the socket behind the seed. -/
theorem finish_delivers (client : Bool) (seed : Bytes) (s : QuictunStream) (me : Nat) (k : QuictunIdleTracker Nat)
    (now : Time) (hs : s.Pristine) (es : List Ev) (w : World)
    (hrun : Lts.run step (init client seed s me k now) es = some w)
    (hclean : Lts.AllSteps step (fun w e => w.clean e = true) (init client seed s me k now) es)
    (hd : .disconnect ∈ w.log) :
    (arrivals s es).2 = true ∧
    (∃ seed', .start seed' ∈ w.log ∧ w.log.flatMap sentOf = seed' ++ (arrivals s es).1) ∧
    w.tunnel.pendingToTcp = [] ∧ w.tunnel.tcpSendInFlight = false ∧ w.socket.sending = false := by
  have h : Fidelity w ∧ Clean (arrivals s es) w := by
    refine Lts.run_inv_hist (I := fun es w => Fidelity w ∧ Clean (arrivals s es) w) ?_
      ⟨init_fidelity .., init_clean hs ..⟩ hclean hrun
    intro es w e w' h hc hw
    refine ⟨step_fidelity h.1 hw, ?_⟩
    rw [arrivals, foldl_append]
    exact step_clean h.1 h.2 hc hw
  have ht := h.2.disconnected hd
  obtain ⟨hfin, hr⟩ := Bool.and_eq_true_iff.1 (h.2.exhausted ht)
  obtain ⟨seed', hm, hsent⟩ := h.2.sent ht
  refine ⟨h.2.fin.trans hfin, ⟨seed', hm, ?_⟩, h.2.queue ht, h.2.sending ht⟩
  rw [hsent, h.2.bytes, isEmpty_iff.1 hr, append_nil]

def finWithLastBytes : List Ev :=
  .start [1] :: replicate 9 (.exec {}) ++ [.streamFrame [2, 3] true] ++ replicate 5 (.exec {}) ++ [.sendDone true] ++
    replicate 14 (.exec { sent := some true, finTaken := true }) ++ replicate 8 (.exec {})

theorem finish_delivers_finWithLastBytes : ∃ w, Lts.run step (init true [] {} 0 {} 0) finWithLastBytes = some w ∧
    .disconnect ∈ w.log ∧ ∃ seed', .start seed' ∈ w.log ∧ w.log.flatMap sentOf = seed' ++ [2, 3] := by
  refine ⟨_, rfl, by decide, ?_⟩
  exact (finish_delivers true [] {} 0 {} 0 ⟨rfl, nofun, rfl⟩ finWithLastBytes _ rfl
    (Lts.allSteps_of_check (by decide +kernel)) (by decide)).2.1

end World

end Quictun
