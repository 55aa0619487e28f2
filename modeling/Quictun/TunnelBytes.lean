import Quictun.TunnelFin

/-!
# Byte fidelity

What a tunnel has read from its stream is what it has handed to the socket followed
by what it has queued, and what it has written to the stream before the FIN is what
it received from the socket. A chunk on its way from `Read()` to the queue, or from the
queue to `SendAsync()`, is on the stack, so both equations count the stack too.
-/

namespace Quictun

open Stack List

namespace World

/-! ## Nothing but a close runs inside a read -/

def reading : Op → Bool
  | .fillAfterRead _ _ => true
  | _ => false

def leaving : Op → Bool
  | .onStreamGone | .close _ _ => true
  | op => op.closing

def ReadTop (w : World) : Prop := Above reading leaving w.todo

variable {op : Op} {ops : List Op}

theorem leaving_pushes (h : Pushes op ops) (hop : leaving op = true) : ∀ o ∈ ops, leaving o = true := by
  cases h with
  | cancelled k =>
    unfold cancelled
    split <;> split <;> split <;> simp [leaving, Op.closing]
  | finalize op r b h => rcases h with rfl | rfl <;> cases hop
  | callGone h => simp [leaving]
  | _ => first | (cases hop; done) | simp [leaving, Op.closing]

theorem above_pushes (h : Pushes op ops) : Above reading leaving ops := by
  cases h with
  | cancelled k =>
    unfold cancelled
    split <;> split <;> split <;> simp [Above, reading]
  | _ => simp [Above, reading, leaving, Op.closing]

variable {w : World} {rest : List Op}

theorem exec_readTop (ht : w.todo = op :: rest) (a : Answer) (h : ReadTop w) : ReadTop ((w.pop rest).exec a op) := by
  obtain ⟨ops, hp, he⟩ := exec_pushes (w.pop rest) a op
  unfold ReadTop at *
  rw [he]
  rw [ht] at h
  exact h.step (above_pushes hp) (leaving_pushes hp)

/-! ## The queue -/

def taking : Op → Bool
  | .read | .fillAfterRead _ _ => true
  | _ => false

structure Queue (w : World) : Prop where
  fresh : w.tunnel.started = false → w.tunnel.pendingToTcp = []
  short : w.tunnel.pendingToTcp.length ≤ kMaxQueuedChunks
  room : has taking w.todo = true → w.tunnel.pendingToTcp.length < kMaxQueuedChunks
  nonempty : ∀ c ∈ w.tunnel.pendingToTcp, c ≠ []

section
variable {w : World}

theorem Queue.pop {op : Op} {rest : List Op} (h : Queue w) (ht : w.todo = op :: rest) : Queue (w.pop rest) :=
  { h with room := fun hr => h.room (by rw [ht, has_cons, hr, Bool.or_true]) }

theorem Queue.append (h : Queue w) {c : Bytes} (hc : c ≠ []) (hl : w.tunnel.pendingToTcp.length < kMaxQueuedChunks)
    (hs : w.tunnel.started = true) (hr : has taking w.todo = false) :
    Queue { w with tunnel := { w.tunnel with pendingToTcp := w.tunnel.pendingToTcp ++ [c] } } where
  fresh hs' := by cases hs.symm.trans hs'
  short := by
    rw [length_append, length_singleton]
    exact hl
  room hr' := by cases hr.symm.trans hr'
  nonempty x hx := by
    rcases mem_append.1 hx with hx | hx
    · exact h.nonempty x hx
    · rw [mem_singleton.1 hx]
      exact hc

theorem Queue.enqueue (h : Queue w) (data : Bytes) (hl : w.tunnel.pendingToTcp.length < kMaxQueuedChunks)
    (hs : w.tunnel.started = true) (hr : has taking w.todo = false) : Queue (w.enqueue data) := by
  unfold World.enqueue
  split
  · exact h
  next hd =>
    exact Queue.append (w := w.noteActivity) { h with } (by simpa using hd) hl hs hr

theorem Queue.start (h : Queue w) (hs : w.tunnel.started = false) (hr : has taking w.todo = false) (seed : Bytes) :
    Queue (w.start seed) := by
  have h' : Queue { w with tunnel := { w.tunnel with started := true } } := { h with fresh := nofun }
  have hl : w.tunnel.pendingToTcp.length < kMaxQueuedChunks := by rw [h.fresh hs]; decide
  have hq : Queue (w.launch seed) := by
    unfold launch
    split
    · exact { h' with }
    next hd =>
      exact { h'.append (c := seed) (by simpa using hd) hl rfl hr with }
  exact { hq with }

end

theorem taking_pushes (h : Pushes op ops) (hop : op ≠ .fillQueueFromStream) (ht : has taking ops = true) :
    taking op = true := by
  cases h with
  | cancelled k =>
    unfold cancelled at ht
    split at ht <;> split at ht <;> split at ht <;> cases ht
  | fill => exact absurd rfl hop
  | _ => first | rfl | cases ht

theorem exec_queue (hi : Inv w) (hrt : ReadTop w) (ht : w.todo = op :: rest)
    (a : Answer) (h : Queue w) : Queue ((w.pop rest).exec a op) := by
  have h' : Queue (w.pop rest) := h.pop ht
  have hrun : op.running = true → w.tunnel.started = true := fun hr => hi.running (by rw [ht, has_cons, hr]; rfl)
  have htop : leaving op = false → has taking rest = false := by
    intro hl
    rw [ReadTop, ht] at hrt
    have hn := hrt.not_has hl
    by_contra hc
    obtain ⟨o, ho, htk⟩ := has_iff.1 (Bool.not_eq_false _ ▸ hc)
    cases o with
    | read => cases hi.below .read (by rw [ht]; exact ho)
    | fillAfterRead d f => cases hn.symm.trans (has_of_mem ho rfl)
    | _ => cases htk
  have hother : op.changes .queue = false → op.changes .started = false → op ≠ .fillQueueFromStream →
      Queue ((w.pop rest).exec a op) := by
    intro hq hs hop
    obtain ⟨ops, hp, he⟩ := exec_pushes (w.pop rest) a op
    have hl := exec_leaves (w.pop rest) a op
    refine ⟨?_, ?_, ?_, ?_⟩ <;> rw [hl.queue hq]
    · rw [hl.started hs]
      exact h.fresh
    · exact h.short
    · intro hr
      rw [he, has_append, Bool.or_eq_true] at hr
      refine h.room ?_
      rw [ht, has_cons, Bool.or_eq_true]
      exact hr.imp_left (taking_pushes hp hop)
    · exact h.nonempty
  cases op with
  | start seed => exact h'.start (hi.top (.start seed) (by rw [ht]; rfl)).2.1 (htop rfl) seed
  | fillQueueFromStream =>
    simp only [exec, fillQueueFromStream]
    split
    next hl =>
      exact { h' with room := fun _ => hl }
    · exact { h' with }
  | fillAfterRead data fin =>
    have hq := h'.enqueue data (h.room (by rw [ht]; rfl)) (hrun rfl) (htop rfl)
    simp only [exec, fillAfterRead]
    split
    · exact { hq with }
    split
    · exact { h' with }
    · exact { hq with }
  | maybeFlushQuicToTcp =>
    simp only [exec, maybeFlushQuicToTcp]
    split
    · exact h'
    split
    · exact { h' with }
    next chunk chunks hp =>
      have hl : chunks.length < w.tunnel.pendingToTcp.length := by rw [hp]; exact Nat.lt_succ_self _
      refine ⟨fun hs => ?_, Nat.le_trans (Nat.le_of_lt hl) h'.short, fun hr =>
        Nat.lt_trans hl (h'.room hr), fun c hc => ?_⟩
      · cases (hrun rfl).symm.trans hs
      · exact h'.nonempty c (by rw [hp]; exact mem_cons_of_mem _ hc)
  | _ => exact hother rfl rfl (by simp)

/-! ## From the stream to the socket -/

def readOf : Call → Bytes
  | .read data => data
  | _ => []

def sentOf : Call → Bytes
  | .sendAsync chunk => chunk
  | _ => []

def inRead : Op → Bytes
  | .fillAfterRead data _ => data
  | _ => []

def inSend : Op → Bytes
  | .sendAsync chunk => chunk
  | _ => []

def carrying : Call → Bool
  | .start _ | .read _ | .sendAsync _ => true
  | _ => false

structure TowardsTcp (w : World) : Prop where
  fresh : w.tunnel.started = false →
    w.log.flatMap readOf = [] ∧ w.log.flatMap sentOf = [] ∧ ∀ seed, .start seed ∉ w.log
  begun : w.tunnel.started = true → ∃ seed, .start seed ∈ w.log
  balance : w.tunnel.closed = false → ∀ seed, .start seed ∈ w.log → seed ++ w.log.flatMap readOf =
    w.log.flatMap sentOf ++ w.todo.flatMap inSend ++ w.tunnel.pendingToTcp.flatten ++ w.todo.flatMap inRead

variable {l : List Op}

theorem inRead_nil (h : has reading l = false) : l.flatMap inRead = [] :=
  flatMap_eq_nil_iff.2 fun o ho => by cases o <;> first | rfl | cases h.symm.trans (has_of_mem ho rfl)

theorem inSend_nil (h : ∀ op ∈ l, op.deferred = true) : l.flatMap inSend = [] :=
  flatMap_eq_nil_iff.2 fun o ho => by cases o <;> first | rfl | cases h _ ho

section
variable {w : World}

theorem start_mem_append {l : List Call} {c : Call} (hc : ∀ seed, .start seed ≠ c) {seed : Bytes} :
    .start seed ∈ l ++ [c] ↔ .start seed ∈ l := by
  simp [hc seed]

theorem TowardsTcp.record (h : TowardsTcp w) {c : Call} (hs : ∀ seed, .start seed ≠ c) (hr : readOf c = [])
    (ht : sentOf c = []) : TowardsTcp (w.record c) := by
  have hl : (w.log ++ [c]).flatMap readOf = w.log.flatMap readOf ∧
    (w.log ++ [c]).flatMap sentOf = w.log.flatMap sentOf := by
    simp [hr, ht]
  unfold World.record
  refine ⟨fun hf => ?_, fun hb => ?_, fun hc seed hm => ?_⟩
  · obtain ⟨h1, h2, h3⟩ := h.fresh hf
    exact ⟨hl.1.trans h1, hl.2.trans h2, fun seed hm => h3 seed ((start_mem_append hs).1 hm)⟩
  · obtain ⟨seed, hm⟩ := h.begun hb
    exact ⟨seed, (start_mem_append hs).2 hm⟩
  · rw [hl.1, hl.2]
    exact h.balance hc seed ((start_mem_append hs).1 hm)

theorem TowardsTcp.start (h : TowardsTcp w) (hq : Queue w) (hs : w.tunnel.started = false)
    (hsend : w.todo.flatMap inSend = []) (hread : w.todo.flatMap inRead = []) (seed : Bytes) :
    TowardsTcp (w.start seed) := by
  obtain ⟨h1, h2, h3⟩ := h.fresh hs
  refine ⟨nofun, fun _ => ⟨seed, mem_append_right _ (mem_singleton_self _)⟩, fun _ seed' hm => ?_⟩
  change Call.start seed' ∈ w.log ++ [Call.start seed] at hm
  obtain rfl : seed' = seed := by simpa [h3 seed'] using hm
  show seed' ++ (w.log ++ [Call.start seed']).flatMap readOf =
    (w.log ++ [Call.start seed']).flatMap sentOf ++ w.todo.flatMap inSend ++
      (if seed'.isEmpty = true then w.tunnel.pendingToTcp else w.tunnel.pendingToTcp ++ [seed']).flatten ++
        w.todo.flatMap inRead
  simp only [flatMap_append, h1, h2, hq.fresh hs, hsend, hread]
  cases seed' <;> simp [readOf, sentOf]

theorem TowardsTcp.enqueue {data : Bytes} (hs : w.tunnel.started = true) (hm : ∃ seed, .start seed ∈ w.log)
    (hb : w.tunnel.closed = false → ∀ seed, .start seed ∈ w.log → seed ++ w.log.flatMap readOf =
      w.log.flatMap sentOf ++ w.todo.flatMap inSend ++ w.tunnel.pendingToTcp.flatten ++
        (data ++ w.todo.flatMap inRead)) :
    TowardsTcp (w.enqueue data) := by
  unfold World.enqueue
  split
  next hd =>
    rw [isEmpty_iff.1 hd] at hb
    exact ⟨fun hs' => (by cases hs.symm.trans hs'), fun _ => hm, hb⟩
  · refine ⟨fun hs' => (by cases hs.symm.trans hs'), fun _ => hm, fun hc seed hmem => ?_⟩
    show seed ++ w.log.flatMap readOf = w.log.flatMap sentOf ++ w.todo.flatMap inSend ++
      (w.tunnel.pendingToTcp ++ [data]).flatten ++ w.todo.flatMap inRead
    rw [hb hc seed hmem]
    simp

end

theorem bytes_pushes (h : Pushes op ops) (hop : taking op = false) (hq : op.changes .queue = false) :
    ops.flatMap inSend = [] ∧ ops.flatMap inRead = [] := by
  cases h with
  | cancelled k =>
    unfold cancelled
    split <;> split <;> split <;> exact ⟨rfl, rfl⟩
  | _ => first | (cases hop; done) | (cases hq; done) | exact ⟨rfl, rfl⟩

theorem exec_towardsTcp (hi : Inv w) (hrt : ReadTop w) (hq : Queue w)
    (ht : w.todo = op :: rest) (a : Answer) (h : TowardsTcp w) : TowardsTcp ((w.pop rest).exec a op) := by
  have hsend : rest.flatMap inSend = [] := inSend_nil fun o ho => hi.below o (by rw [ht]; exact ho)
  have hread : leaving op = false → rest.flatMap inRead = [] := fun hl => by
    rw [ReadTop, ht] at hrt
    exact inRead_nil (hrt.not_has hl)
  have hrun : op.running = true → w.tunnel.started = true := fun hr => hi.running (by rw [ht, has_cons, hr]; rfl)
  have hbal := h.balance
  rw [ht] at hbal
  have h' : inSend op = [] → inRead op = [] → TowardsTcp (w.pop rest) := by
    intro hs hr
    simp only [flatMap_cons, hs, hr, nil_append] at hbal
    exact ⟨h.fresh, h.begun, hbal⟩
  have hother : op.changes .queue = false → op.changes .started = false → taking op = false →
      (w.logs op).all (fun c => !carrying c) = true → inSend op = [] → inRead op = [] →
      TowardsTcp ((w.pop rest).exec a op) := by
    intro hq' hs hop hlog hse hre
    obtain ⟨ops, hp, he⟩ := exec_pushes (w.pop rest) a op
    obtain ⟨hps, hpr⟩ := bytes_pushes hp hop hq'
    have hl := exec_leaves (w.pop rest) a op
    have hrec : TowardsTcp { w with todo := rest, log := w.log ++ (w.logs op).toList } := by
      cases hc : w.logs op with
      | none =>
        rw [Option.toList_none, append_nil]
        exact h' hse hre
      | some c =>
        rw [hc] at hlog
        refine (h' hse hre).record ?_ ?_ ?_ <;> cases c <;> first | (cases hlog; done) | rfl | simp
    have hts : ((w.pop rest).exec a op).todo.flatMap inSend = rest.flatMap inSend := by
      rw [he, flatMap_append, hps, nil_append]
    have htr : ((w.pop rest).exec a op).todo.flatMap inRead = rest.flatMap inRead := by
      rw [he, flatMap_append, hpr, nil_append]
    refine ⟨fun hn => ?_, fun hn => ?_, fun hc seed hm => ?_⟩
    · rw [hl.log]
      exact hrec.fresh ((hl.started hs).symm.trans hn)
    · rw [hl.log]
      exact hrec.begun ((hl.started hs).symm.trans hn)
    · rw [hl.log] at hm ⊢
      rw [hts, htr, hl.queue hq']
      exact hrec.balance (hl.stillOpen hc) seed hm
  cases op with
  | start seed =>
    have hs := (hi.top (.start seed) (by rw [ht]; rfl)).2.1
    exact TowardsTcp.start (h' rfl rfl) (hq.pop ht) hs hsend (hread rfl) seed
  | read =>
    obtain ⟨s, c, g, he⟩ := afterCall_eq (record (w.pop rest) (.read (w.stream.read kReadSize).1)) a
      (w.stream.read kReadSize).2.2 [.fillAfterRead (w.stream.read kReadSize).1 (w.stream.read kReadSize).2.1]
    simp only [exec, read, he]
    obtain ⟨seed, hm⟩ := h.begun (hrun rfl)
    refine ⟨fun hs => (by cases (hrun rfl).symm.trans hs), fun _ => ⟨seed, mem_append_left _ hm⟩, fun hc seed hm => ?_⟩
    have hb := hbal hc seed ((start_mem_append (by simp)).1 hm)
    simp only [flatMap_cons, hsend, hread rfl] at hb
    cases g <;> simp [push, record, hsend, hread rfl, readOf, sentOf, inSend, inRead, ← append_assoc, hb]
  | fillAfterRead data fin =>
    have he : TowardsTcp (enqueue (w.pop rest) data) := .enqueue (hrun rfl) (h.begun (hrun rfl)) hbal
    simp only [exec, fillAfterRead]
    split
    · exact { he with }
    split
    next hd =>
      rw [isEmpty_iff.1 hd] at hbal
      exact ⟨h.fresh, h.begun, hbal⟩
    · exact { he with }
  | maybeFlushQuicToTcp =>
    simp only [exec, maybeFlushQuicToTcp]
    split
    · exact h' rfl rfl
    split
    · exact { h' rfl rfl with }
    next chunk chunks hp =>
      refine ⟨h.fresh, h.begun, fun hc seed hm => ?_⟩
      simp only [flatMap_cons, hsend, hread rfl, hp] at hbal
      simp [push, dequeued, hsend, hread rfl, inSend, inRead, hbal hc seed hm]
  | sendAsync chunk =>
    obtain ⟨seed, hm⟩ := h.begun (hrun rfl)
    have hr : TowardsTcp (record (w.pop rest) (.sendAsync chunk)) := by
      refine ⟨fun hs => (by cases (hrun rfl).symm.trans hs), fun _ =>
        ⟨seed, mem_append_left _ hm⟩, fun hc seed hm => ?_⟩
      have hb := hbal hc seed ((start_mem_append (by simp)).1 hm)
      simp only [flatMap_cons, hsend, hread rfl] at hb
      simp [record, hsend, hread rfl, readOf, sentOf, hb, inSend, inRead]
    simp only [exec, sendAsync]
    split <;> exact { hr with }
  | _ => exact hother rfl rfl rfl rfl rfl rfl

/-! ## From the socket to the stream -/

def isClose : Call → Bool
  | .close _ => true
  | _ => false

def writtenOf : Call → Bytes
  | .writeToStream data false => data
  | _ => []

def payloadOf : Call → Bytes
  | .receiveComplete (.slice data) => data
  | _ => []

def inWrite : Op → Bytes
  | .writeToStream data false => data
  | _ => []

def before (stop : Call → Bool) (f : Call → Bytes) (l : List Call) : Bytes := (l.takeWhile fun c => !stop c).flatMap f

def written : List Call → Bytes := before isFin writtenOf

def payloads : List Call → Bytes := before (fun c => isFin c || isClose c) payloadOf

theorem before_append {stop : Call → Bool} {f : Call → Bytes} {c : Call} (hc : stop c = true → f c = [])
    (l : List Call) :
    before stop f (l ++ [c]) = before stop f l ++ if has stop l = true then [] else f c := by
  induction l with
  | nil =>
    cases hs : stop c with
    | false => simp [before, hs]
    | true => simp [before, hs, hc hs]
  | cons d l ih =>
    cases hs : stop d with
    | true => simp [before, hs]
    | false =>
      simp only [before] at ih
      simp [before, hs, ih]

structure FromTcp (w : World) : Prop where
  closes : has isClose w.log = w.tunnel.closed
  balance : w.tunnel.closed = false → has isFin w.log = false → payloads w.log = written w.log ++ w.todo.flatMap inWrite
  settled : w.tunnel.closed = true ∨ has isFin w.log = true → payloads w.log = written w.log

theorem inWrite_nil (h : ∀ op ∈ l, op.deferred = true) : l.flatMap inWrite = [] :=
  flatMap_eq_nil_iff.2 fun o ho => by cases o <;> first | rfl | cases h _ ho

section
variable {w : World}

theorem FromTcp.eq (h : FromTcp w) (ht : w.todo.flatMap inWrite = []) : payloads w.log = written w.log := by
  by_cases hs : w.tunnel.closed = true ∨ has isFin w.log = true
  · exact h.settled hs
  · simp only [not_or, Bool.not_eq_true] at hs
    rw [h.balance hs.1 hs.2, ht, append_nil]

theorem FromTcp.of_eq (hc : has isClose w.log = w.tunnel.closed) (h : payloads w.log = written w.log)
    (ht : w.todo.flatMap inWrite = []) : FromTcp w :=
  ⟨hc, fun _ _ => by rw [ht, append_nil, h], fun _ => h⟩

variable {c : Call}

theorem written_append (hc : writtenOf c = []) (l : List Call) : written (l ++ [c]) = written l := by
  rw [written, before_append (fun _ => hc), hc, ite_self, append_nil]

theorem payloads_append (hc : payloadOf c = []) (l : List Call) : payloads (l ++ [c]) = payloads l := by
  rw [payloads, before_append (fun _ => hc), hc, ite_self, append_nil]

theorem payloads_receive (l : List Call) (data : Received) :
    (has isClose l = true ∨ has isFin l = true → payloads (l ++ [.receiveComplete data]) = payloads l) ∧
    (has isClose l = false → has isFin l = false →
      payloads (l ++ [.receiveComplete data]) = payloads l ++ payloadOf (.receiveComplete data)) := by
  have hs : has (fun c => isFin c || isClose c) l = (has isFin l || has isClose l) := by
    induction l with
    | nil => rfl
    | cons c l ih => rw [has_cons, has_cons, has_cons, ih]; grind
  rw [payloads, before_append (by simp [isFin, isClose]), hs]
  refine ⟨fun h => ?_, fun hc hf => ?_⟩
  · rcases h with h | h <;> simp [h]
  · simp [hc, hf]

end

theorem inWrite_pushes (h : Pushes op ops) (hop : slicing op = false) : ops.flatMap inWrite = [] := by
  cases h with
  | cancelled k =>
    unfold cancelled
    split <;> split <;> split <;> rfl
  | _ => first | rfl | cases hop

theorem exec_fromTcp (hi : Inv w) (ht : w.todo = op :: rest) (a : Answer)
    (h : FromTcp w) : FromTcp ((w.pop rest).exec a op) := by
  have hw : rest.flatMap inWrite = [] := inWrite_nil fun o ho => hi.below o (by rw [ht]; exact ho)
  have h' : inWrite op = [] → FromTcp (w.pop rest) := fun ho =>
    .of_eq h.closes (h.eq (by rw [ht, flatMap_cons, ho, hw]; rfl)) hw
  have hother : op.changes .closed = false → slicing op = false → inWrite op = [] →
      (w.logs op).all (fun c => !isClose c && (writtenOf c).isEmpty && (payloadOf c).isEmpty) = true →
      FromTcp ((w.pop rest).exec a op) := by
    intro hcl hsl hwr hlog
    obtain ⟨ops, hp, he⟩ := exec_pushes (w.pop rest) a op
    have hl := exec_leaves (w.pop rest) a op
    have hrec : has isClose (w.log ++ (w.logs op).toList) = has isClose w.log ∧
        payloads (w.log ++ (w.logs op).toList) = written (w.log ++ (w.logs op).toList) := by
      have heq := (h' hwr).eq hw
      cases hc : w.logs op with
      | none =>
        rw [Option.toList_none, append_nil]
        exact ⟨rfl, heq⟩
      | some c =>
        rw [hc, Option.all_some, Bool.and_eq_true, Bool.and_eq_true, Bool.not_eq_true', List.isEmpty_iff,
          List.isEmpty_iff] at hlog
        refine ⟨by simp [hlog.1.1], ?_⟩
        rw [Option.toList_some, payloads_append hlog.2, written_append hlog.1.2]
        exact heq
    refine .of_eq ?_ ?_ ?_
    · rw [hl.log, hl.closed hcl]
      exact hrec.1.trans h.closes
    · rw [hl.log]
      exact hrec.2
    · rw [he, flatMap_append, inWrite_pushes hp hsl]
      exact hw
  cases op with
  | receiveComplete data =>
    have hp := payloads_receive w.log data
    rw [h.closes] at hp
    have hl : written (w.log ++ [.receiveComplete data]) = written w.log := written_append rfl _
    have hf : has isFin (w.log ++ [.receiveComplete data]) = has isFin w.log := by simp [isFin]
    have hcl : has isClose (w.log ++ [.receiveComplete data]) = w.tunnel.closed := by simp [isClose, h.closes]
    have heq := (h' rfl).eq hw
    -- the payload counts exactly when the block that writes it goes on the stack before the FIN
    have key : ∀ ops : List Op,
      (w.tunnel.closed = false → has isFin w.log = false → ops.flatMap inWrite = payloadOf (.receiveComplete data)) →
        FromTcp ((receiveArrived (w.pop rest) data).push ops) := by
      intro ops ho
      refine ⟨hcl, fun hc hn => ?_, fun hs => ?_⟩
      · have hn' := hf.symm.trans hn
        show payloads (w.log ++ [.receiveComplete data]) =
          written (w.log ++ [.receiveComplete data]) ++ (ops ++ rest).flatMap inWrite
        rw [hp.2 hc hn', hl, flatMap_append, ho hc hn', hw, append_nil, heq]
      · show payloads (w.log ++ [.receiveComplete data]) = written (w.log ++ [.receiveComplete data])
        rw [hp.1 (hs.imp_right hf.symm.trans), hl, heq]
    simp only [exec, receiveComplete]
    split
    next hc =>
      exact key [] fun hc' => by cases hc.symm.trans hc'
    split
    · exact { key [.writeToStream [] true, .maybeFinalizeClose] fun _ _ => rfl with }
    · exact { key [.writeToStream _ false, .receiveAfterWrite] fun _ _ => append_nil _ with }
    next h1 h2 =>
      refine key _ fun _ _ => ?_
      cases data with
      | slice bs =>
        cases bs with
        | nil => exact absurd rfl h1
        | cons b bs => exact absurd rfl (h2 b bs)
      | failed | cancelled => rfl
  | writeToStream data fin =>
    have hc : w.tunnel.closed = false := hi.top (.writeToStream data fin) (by rw [ht]; rfl)
    have hb := h.balance hc
    rw [ht, flatMap_cons, hw, append_nil] at hb
    have hl : written (w.log ++ [.writeToStream data fin]) = payloads w.log := by
      rw [written, before_append (by cases fin <;> simp [isFin, writtenOf])]
      split
      next hf =>
        rw [append_nil]
        exact (h.settled (.inr hf)).symm
      next hf =>
        rw [hb (by simpa using hf)]
        cases fin <;> rfl
    have hr : FromTcp (record (w.pop rest) (.writeToStream data fin)) :=
      .of_eq (by simp [record, isClose, h.closes]) (by rw [record, payloads_append rfl, hl]) hw
    obtain ⟨s, c, g, he⟩ := afterCall_eq (record (w.pop rest) (.writeToStream data fin)) a
      (w.stream.writeToStream data fin a.taken a.finTaken) []
    simp only [exec, writeToStream, he]
    cases g <;> exact { hr with }
  | close reason b =>
    have hr : FromTcp (shut (w.pop rest) reason) :=
      .of_eq (by simp [shut, isClose]) (by
        show payloads (w.log ++ [.close reason]) = written (w.log ++ [.close reason])
        rw [payloads_append rfl, written_append rfl]
        exact (h' rfl).eq hw) hw
    simp only [exec, close]
    split <;> exact { hr with }
  | _ => exact hother rfl rfl rfl rfl

/-! ## Whole runs -/

structure Fidelity (w : World) : Prop extends Inv w where
  readTop : ReadTop w
  queue : Queue w
  towardsTcp : TowardsTcp w
  fromTcp : FromTcp w

variable {w' : World} {e : Ev}

theorem deliver_fidelity (h : Fidelity w) (hi : Inv w') (ht : w.todo = []) (hw : w.deliver e = some w') :
    Fidelity w' := by
  obtain ⟨x, y, s, k, c, ops, rfl, ho, -⟩ := deliver_eq ht hw
  have hn : Above reading leaving ops ∧ has taking ops = false ∧
      ops.flatMap inSend = [] ∧ ops.flatMap inRead = [] ∧ ops.flatMap inWrite = [] := by
    rcases ho with rfl | ⟨op, rfl, he⟩
    · exact ⟨List.Pairwise.nil, rfl, rfl, rfl, rfl⟩
    · cases op <;> first | exact ⟨pairwise_singleton _ _, rfl, rfl, rfl, rfl⟩ | cases he
  obtain ⟨hab, htk, hs, hr, hwr⟩ := hn
  refine ⟨hi, hab, { h.queue with room := fun hr => (by cases htk.symm.trans hr) }, ?_, ?_⟩
  · refine { h.towardsTcp with balance := fun hc seed hm => ?_ }
    have hb := h.towardsTcp.balance hc seed hm
    rw [ht] at hb
    rwa [hs, hr]
  · refine { h.fromTcp with balance := fun hc hf => ?_ }
    have hb := h.fromTcp.balance hc hf
    rw [ht] at hb
    rwa [hwr]

theorem step_fidelity (h : Fidelity w) (hw : w.step e = some w') : Fidelity w' := by
  have hi := step_inv h.toInv hw
  rcases step_cases hw with ⟨a, op, rest, -, ht, rfl⟩ | ⟨d, rfl⟩ | ⟨k, -, rfl⟩ | ⟨ht, hw⟩
  · exact ⟨hi, exec_readTop ht a h.readTop, exec_queue h.toInv h.readTop ht a h.queue,
      exec_towardsTcp h.toInv h.readTop h.queue ht a h.towardsTcp, exec_fromTcp h.toInv ht a h.fromTcp⟩
  · exact ⟨hi, h.readTop, { h.queue with }, { h.towardsTcp with }, { h.fromTcp with }⟩
  · exact ⟨hi, h.readTop, { h.queue with }, { h.towardsTcp with }, { h.fromTcp with }⟩
  · exact deliver_fidelity h hi ht hw

theorem init_fidelity (client : Bool) (seed : Bytes) (s : QuictunStream) (me : Nat) (k : QuictunIdleTracker Nat)
    (now : Time) : Fidelity (init client seed s me k now) where
  toInv := init_inv ..
  readTop := List.Pairwise.nil
  queue := ⟨fun _ => rfl, Nat.zero_le _, nofun, nofun⟩
  towardsTcp := ⟨fun _ => ⟨rfl, rfl, fun _ => not_mem_nil⟩, nofun, nofun⟩
  fromTcp := ⟨rfl, fun _ _ => rfl, fun _ => rfl⟩

def moving : Op → Bool
  | .fillAfterRead _ _ | .sendAsync _ => true
  | _ => false

theorem inRead_nil_of_still (h : has moving l = false) : l.flatMap inRead = [] ∧ l.flatMap inSend = [] := by
  constructor <;>
  · refine flatMap_eq_nil_iff.2 fun o ho => ?_
    cases o <;> first | rfl | cases h.symm.trans (has_of_mem ho rfl)

/-- **Byte fidelity.** In every state of every run an open tunnel has handed on, in order, its seed and what it has
read up to what is still queued, and has written to the stream what the socket delivered. -/
theorem bytes_preserved (client : Bool) (seed : Bytes) (s : QuictunStream) (me : Nat) (k : QuictunIdleTracker Nat)
    (now : Time) (es : List Ev) (w : World) (hrun : Lts.run step (init client seed s me k now) es = some w) :
    (w.tunnel.started = false → w.log.flatMap readOf = [] ∧ w.log.flatMap sentOf = [] ∧ w.tunnel.pendingToTcp = []) ∧
    (w.tunnel.started = true → ∃ seed', .start seed' ∈ w.log) ∧
    (∀ seed', .start seed' ∈ w.log → w.tunnel.closed = false → has moving w.todo = false →
      seed' ++ w.log.flatMap readOf = w.log.flatMap sentOf ++ w.tunnel.pendingToTcp.flatten ∧
      w.log.flatMap sentOf <+: seed' ++ w.log.flatMap readOf) ∧
    (has writing w.todo = false → written w.log = payloads w.log) ∧
    w.tunnel.pendingToTcp.length ≤ kMaxQueuedChunks ∧ [] ∉ w.tunnel.pendingToTcp := by
  have h : Fidelity w := Lts.run_inv (fun _ _ _ hi hs => step_fidelity hi hs) (init_fidelity ..) hrun
  refine ⟨fun hs => ?_, h.towardsTcp.begun, fun seed' hm hc hn => ?_, fun hn => ?_, h.queue.short, fun hm => ?_⟩
  · obtain ⟨hr, hsent, -⟩ := h.towardsTcp.fresh hs
    exact ⟨hr, hsent, h.queue.fresh hs⟩
  · have hb := h.towardsTcp.balance hc seed' hm
    obtain ⟨hr, hsend⟩ := inRead_nil_of_still hn
    rw [hr, hsend, append_nil, append_nil] at hb
    exact ⟨hb, hb ▸ prefix_append _ _⟩
  · refine (h.fromTcp.eq (flatMap_eq_nil_iff.2 fun o ho => ?_)).symm
    cases o <;> first | rfl | cases hn.symm.trans (has_of_mem ho rfl)
  · exact h.queue.nonempty [] hm rfl

def seededStart : List Ev :=
  [.streamFrame [3, 4] false, .exec {}, .start [1, 2]] ++ replicate 8 (.exec {}) ++
    [.exec { received := some (some [9]) }, .exec {}, .exec { taken := 1 }] ++ replicate 7 (.exec {})

theorem bytes_preserved_seededStart : ∃ w, Lts.run step (init true [] {} 0 {} 0) seededStart = some w ∧ w.todo = [] ∧
    w.log.flatMap readOf = [3, 4] ∧ w.tunnel.pendingToTcp = [[3, 4]] ∧ written w.log = [9] ∧
    [1, 2] ++ w.log.flatMap readOf = w.log.flatMap sentOf ++ w.tunnel.pendingToTcp.flatten :=
  ⟨_, rfl, rfl, rfl, rfl, rfl,
    ((bytes_preserved true [] {} 0 {} 0 seededStart _ rfl).2.2.1 [1, 2] (mem_cons_self ..) rfl rfl).1⟩

end World

end Quictun
