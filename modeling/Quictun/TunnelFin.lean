import Quictun.ServerStreams
import Quictun.TunnelSocket

/-!
# The FIN is the last thing a tunnel writes

Two paths write the FIN: end of file on the TCP side and, once the peer's FIN is passed on,
`MaybeCloseAfterQuicFin`. The second one does not wait for the TCP receive that is still in
flight. If the tunnel is then kept open, a slice from that receive is written behind the
FIN, or an end of file writes the FIN again and restarts the flush timer
(`late_end_of_file_writes_again`). Runs in which no slice comes that late keep the discipline.
-/

namespace Quictun

open Stack List Bool

namespace World

def isFin : Call → Bool
  | .writeToStream _ true => true
  | _ => false

def isWrite : Call → Bool
  | .writeToStream _ _ => true
  | _ => false

def writing : Op → Bool
  | .writeToStream _ _ => true
  | _ => false

def finishing : Op → Bool
  | .writeToStream _ true => true
  | _ => false

def slicing : Op → Bool
  | .receiveComplete (.slice _) => true
  | _ => false

structure FinLast (w : World) : Prop where
  done : has isFin w.log = true → w.tunnel.tcpReceiveDone = true
  order : w.log.Pairwise fun a b => isFin a = true → isWrite b = false
  writing : has writing w.todo = true → has isFin w.log = false
  finishing : has finishing w.todo = true → w.tunnel.tcpReceiveDone = true
  slice : has slicing w.todo = true → w.tunnel.closed = false → w.tunnel.tcpReceiveDone = false

section
variable {w : World}

theorem FinLast.pop {op : Op} {rest : List Op} (h : FinLast w) (ht : w.todo = op :: rest) : FinLast (w.pop rest) where
  done := h.done
  order := h.order
  writing h' := h.writing (by rw [ht, has_cons, h', Bool.or_true])
  finishing h' := h.finishing (by rw [ht, has_cons, h', Bool.or_true])
  slice h' := h.slice (by rw [ht, has_cons, h', Bool.or_true])

variable {c : Call}

theorem isFin_record (hc : isWrite c = false) (w : World) : has isFin (w.log ++ [c]) = has isFin w.log := by
  have : isFin c = false := by cases c <;> first | rfl | cases hc
  rw [has_append, has_cons, this, has_nil, Bool.or_false, Bool.or_false]

theorem order_record (h : FinLast w) (hc : isWrite c = false) :
    (w.log ++ [c]).Pairwise fun a b => isFin a = true → isWrite b = false := by
  refine pairwise_append.2 ⟨h.order, pairwise_singleton _ _, fun a _ b hb _ => ?_⟩
  rw [mem_singleton.1 hb]
  exact hc

theorem FinLast.record (h : FinLast w) {c : Call} (hc : isWrite c = false) : FinLast (w.record c) where
  done h' := h.done (by rwa [World.record, isFin_record hc] at h')
  order := order_record h hc
  writing h' := (isFin_record hc w).trans (h.writing h')
  finishing := h.finishing
  slice := h.slice

theorem FinLast.not_fin (h : FinLast w) (hd : w.tunnel.tcpReceiveDone = false) : has isFin w.log = false := by
  by_contra hf
  rw [not_eq_false] at hf
  cases hd.symm.trans (h.done hf)

theorem FinLast.finishSending (h : FinLast w) (hd : w.tunnel.tcpReceiveDone = false)
    (hs : has slicing w.todo = false) : FinLast w.finishSending where
  done _ := rfl
  order := h.order
  writing _ := h.not_fin hd
  finishing _ := rfl
  slice h' := by cases hs.symm.trans h'

theorem FinLast.write (h : FinLast w) {data : Bytes} {fin : Bool} (hn : has isFin w.log = false)
    (hd : fin = true → w.tunnel.tcpReceiveDone = true) (hw : has World.writing w.todo = false) :
    FinLast (w.record (.writeToStream data fin)) where
  done h' := by
    rw [World.record, has_append, hn, Bool.false_or, has_cons, has_nil, Bool.or_false] at h'
    cases fin with
    | true => exact hd rfl
    | false => cases h'
  order := by
    refine pairwise_append.2 ⟨h.order, pairwise_singleton _ _, fun a ha b _ hf => ?_⟩
    cases hn.symm.trans (has_of_mem ha hf)
  writing h' := by cases hw.symm.trans h'
  finishing := h.finishing
  slice := h.slice

end

variable {w : World}

theorem fin_pushes {op : Op} {ops : List Op} (h : Pushes op ops) (hop : op.changes .done = false) :
    has World.writing ops = false ∧ has World.finishing ops = false ∧
      (op = .receiveAsync ∨ has slicing ops = false) := by
  cases h with
  | cancelled k =>
    unfold cancelled
    split <;> split <;> split <;> exact ⟨rfl, rfl, .inr rfl⟩
  | received d => exact ⟨rfl, rfl, .inl rfl⟩
  | _ => first | (cases hop; done) | exact ⟨rfl, rfl, .inr rfl⟩

theorem exec_finLast {op : Op} {rest : List Op} (hi : Inv w) (ht : w.todo = op :: rest) (a : Answer)
    (h : FinLast w) : FinLast ((w.pop rest).exec a op) := by
  have hd : ∀ o ∈ rest, o.deferred = true := fun o ho => hi.below o (by rw [ht]; exact ho)
  have hns : has slicing rest = false := not_has_of_all hd fun o ho => by
    unfold Op.deferred at ho
    split at ho <;> trivial
  have hnw : has World.writing rest = false := not_has_of_all hd fun o ho => by
    unfold Op.deferred at ho
    split at ho <;> trivial
  have h' : FinLast (w.pop rest) := h.pop ht
  have hother : op.changes .done = false → (w.logs op).all (fun c => !isWrite c) = true →
      (op = .receiveAsync → w.tunnel.tcpReceiveDone = false) → FinLast ((w.pop rest).exec a op) := by
    intro hop hlog hrecv
    obtain ⟨ops, hp, he⟩ := exec_pushes (w.pop rest) a op
    obtain ⟨hw, hf, hs⟩ := fin_pushes hp hop
    have hl := exec_leaves (w.pop rest) a op
    have hrec : FinLast { w with todo := rest, log := w.log ++ (w.logs op).toList } := by
      cases hc : w.logs op with
      | none =>
        rw [Option.toList_none, append_nil]
        exact h'
      | some c =>
        rw [hc, Option.all_some, not_eq_true'] at hlog
        exact h'.record hlog
    refine ⟨fun h1 => ?_, ?_, fun h1 => ?_, fun h1 => ?_, fun h1 h2 => ?_⟩
    · rw [hl.log] at h1
      exact (hl.done hop).trans (hrec.done h1)
    · rw [hl.log]
      exact hrec.order
    · rw [he, has_append, hw, Bool.false_or] at h1
      rw [hl.log]
      exact hrec.writing h1
    · rw [he, has_append, hf, Bool.false_or] at h1
      exact (hl.done hop).trans (hrec.finishing h1)
    · rw [hl.done hop]
      rcases hs with hs | hs
      · exact hrecv hs
      · rw [he, has_append, hs, Bool.false_or] at h1
        cases hns.symm.trans h1
  cases op with
  | receiveComplete data =>
    have hr := h'.record (c := .receiveComplete data) rfl
    simp only [exec, receiveComplete]
    split
    · exact { hr with }
    next hc =>
      rw [not_eq_true] at hc
      split
      · have hdone := h.slice (by rw [ht]; rfl) hc
        exact FinLast.finishSending (w := World.receiveArrived _ _) { hr with } hdone hns
      · have hdone := h.slice (by rw [ht]; rfl) hc
        exact { hr with writing := fun _ => hr.not_fin hdone }
      · exact { hr with }
  | maybeCloseAfterQuicFin =>
    simp only [exec, maybeCloseAfterQuicFin]
    split
    · exact h'
    split
    · exact { h' with }
    next hn =>
      rw [not_eq_true] at hn
      exact h'.finishSending hn hns
  | writeToStream data fin =>
    have hf : fin = true → w.tunnel.tcpReceiveDone = true := fun hf => h.finishing (by rw [ht, hf]; rfl)
    have hw : FinLast (World.record (w.pop rest) (.writeToStream data fin)) :=
      h'.write (h.writing (by rw [ht]; rfl)) hf hnw
    obtain ⟨s, c, g, he⟩ := afterCall_eq (World.record (w.pop rest) (.writeToStream data fin)) a
      (w.stream.writeToStream data fin a.taken a.finTaken) []
    simp only [exec, World.writeToStream, he]
    cases g <;> exact { hw with }
  | receiveAsync => exact hother rfl rfl fun _ => (hi.top .receiveAsync (by rw [ht]; rfl)).2.2.1
  | _ => exact hother rfl rfl (by simp)

/-! ## Whole runs -/

/-- No slice, of data or at end of file, completes a receive of an open tunnel that has finished sending. -/
def NoLateSlice (w : World) (e : Ev) : Prop :=
  ∀ bs, e = .receiveDone (some bs) → w.tunnel.closed = false → w.tunnel.tcpReceiveDone = false

variable {w' : World} {e : Ev}

theorem deliver_slicing (ht : w.todo = []) (hw : w.deliver e = some w')
    (hs : has slicing w'.todo = true) : ∃ bs, e = .receiveDone (some bs) := by
  have hn : ∀ r, has slicing (w.notified r).todo = false := by
    rintro ⟨s, _ | _ | _ | _⟩ <;> rfl
  cases deliver_cases hw with
  | receiveDone _ data =>
    cases data with
    | some bs => exact ⟨bs, rfl⟩
    | none => cases hs
  | dials =>
    rw [show has slicing w.todo = false by rw [ht]; rfl] at hs
    cases hs
  | _ => first | cases hs | cases (hn _).symm.trans hs

theorem deliver_finLast (h : FinLast w) (hc : NoLateSlice w e) (ht : w.todo = []) (hw : w.deliver e = some w') :
    FinLast w' := by
  have hsl := deliver_slicing ht hw
  obtain ⟨x, y, s, k, c, ops, rfl, ho, -⟩ := deliver_eq ht hw
  have hn : has World.writing ops = false ∧ has World.finishing ops = false := by
    rcases ho with rfl | ⟨op, rfl, he⟩
    · exact ⟨rfl, rfl⟩
    · cases op <;> first | exact ⟨rfl, rfl⟩ | cases he
  refine ⟨h.done, h.order, fun h' => (by cases hn.1.symm.trans h'), fun h' =>
    (by cases hn.2.symm.trans h'), fun h' => ?_⟩
  obtain ⟨bs, he⟩ := hsl h'
  exact hc bs he

theorem step_finLast (hi : Inv w) (h : FinLast w) (hc : NoLateSlice w e) (hw : w.step e = some w') : FinLast w' := by
  rcases step_cases hw with ⟨a, op, rest, -, ht, rfl⟩ | ⟨d, rfl⟩ | ⟨k, -, rfl⟩ | ⟨ht, hw⟩
  · exact exec_finLast hi ht a h
  · exact { h with }
  · exact { h with }
  · exact deliver_finLast h hc ht hw

theorem step_sendDoneTime (h : FinLast w) (hd : w.tunnel.tcpReceiveDone = true) (hw : w.step e = some w') :
    w'.tunnel.tcpReceiveDone = true ∧ w'.tunnel.sendDoneTime = w.tunnel.sendDoneTime := by
  rcases step_cases hw with ⟨a, op, rest, -, ht, rfl⟩ | ⟨d, rfl⟩ | ⟨k, -, rfl⟩ | ⟨ht, hw⟩
  · cases op with
    | receiveComplete data =>
      simp only [exec, receiveComplete]
      split
      · exact ⟨hd, rfl⟩
      next hc =>
        rw [not_eq_true] at hc
        split
        · cases hd.symm.trans (h.slice (by rw [ht]; rfl) hc)
        · exact ⟨hd, rfl⟩
        · exact ⟨hd, rfl⟩
    | maybeCloseAfterQuicFin =>
      simp only [exec, maybeCloseAfterQuicFin, hd, if_true]
      split <;> exact ⟨hd, rfl⟩
    | _ =>
      have hl := exec_leaves (w.pop rest) a
      exact ⟨((hl _).done rfl).trans hd, (hl _).doneTime rfl⟩
  · exact ⟨hd, rfl⟩
  · exact ⟨hd, rfl⟩
  · obtain ⟨x, y, s, k, c, ops, rfl, -⟩ := deliver_eq ht hw
    exact ⟨hd, rfl⟩

-- a second FIN would be a write after the first
theorem countP_fin_le_one : ∀ {l : List Call},
    (l.Pairwise fun a b => isFin a = true → isWrite b = false) → l.countP isFin ≤ 1
  | [], _ => Nat.zero_le 1
  | c :: l, h => by
    obtain ⟨hc, hl⟩ := pairwise_cons.1 h
    by_cases hf : isFin c = true
    · have h0 : l.countP isFin = 0 := countP_eq_zero.2 fun d hd hfd => by
        have := hc d hd hf
        cases d <;> first | cases hfd | cases this
      have h1 := countP_cons_of_pos (l := l) hf
      omega
    · rw [countP_cons_of_neg hf]
      exact countP_fin_le_one hl

/-- **The FIN comes last.** If no slice completes a receive of an open tunnel that has finished sending, the FIN
is written once at most, with nothing after it, and `send_done_time_` is set once. -/
theorem fin_written_last (client : Bool) (seed : Bytes) (s : QuictunStream) (me : Nat) (k : QuictunIdleTracker Nat)
    (now : Time) (es fs : List Ev) (v w : World) (hv : Lts.run step (init client seed s me k now) es = some v)
    (hw : Lts.run step v fs = some w) (hc : Lts.AllSteps step NoLateSlice (init client seed s me k now) (es ++ fs)) :
    w.log.countP isFin ≤ 1 ∧
    (∀ l data l', w.log = l ++ .writeToStream data true :: l' → ∀ c ∈ l', isWrite c = false) ∧
    (v.tunnel.tcpReceiveDone = true → w.tunnel.sendDoneTime = v.tunnel.sendDoneTime) := by
  obtain ⟨hce, hcf⟩ := (Lts.allSteps_append hv).1 hc
  have h0 : FinLast (init client seed s me k now) := ⟨nofun, List.Pairwise.nil, nofun, nofun, nofun⟩
  have hstep : ∀ w e w', Inv w ∧ FinLast w → NoLateSlice w e → w.step e = some w' → Inv w' ∧ FinLast w' :=
    fun w e w' h hc hw => ⟨step_inv h.1 hw, step_finLast h.1 h.2 hc hw⟩
  have hv' := Lts.run_inv_of hstep ⟨init_inv .., h0⟩ hce hv
  have hw' := (Lts.run_inv_of hstep hv' hcf hw).2
  refine ⟨?_, fun l data l' hl c hm => ?_, fun hd => ?_⟩
  · exact countP_fin_le_one hw'.order
  · have hp := hw'.order
    rw [hl] at hp
    exact (List.pairwise_cons.1 (List.pairwise_append.1 hp).2.1).1 c hm rfl
  · have ht : ∀ w e w', (Inv w ∧ FinLast w) ∧ w.tunnel.tcpReceiveDone = true ∧
      w.tunnel.sendDoneTime = v.tunnel.sendDoneTime → NoLateSlice w e → w.step e = some w' →
        (Inv w' ∧ FinLast w') ∧ w'.tunnel.tcpReceiveDone = true ∧ w'.tunnel.sendDoneTime = v.tunnel.sendDoneTime := by
      intro w e w' ⟨hi, hd, heq⟩ hc hw
      obtain ⟨hd', heq'⟩ := step_sendDoneTime hi.2 hd hw
      exact ⟨hstep w e w' hi hc hw, hd', heq'.trans heq⟩
    exact (Lts.run_inv_of ht ⟨hv', hd, rfl⟩ hcf hw).2.2

def oneByteSent : List Ev :=
  [.start [], .exec {}, .exec {}, .exec {}, .exec {}, .exec {}, .exec { received := some (some [7]) }, .exec {},
    .exec { taken := 1 }, .exec {}, .exec {}, .exec {}, .exec {}, .exec {}, .exec {}]

def peerFinishes : List Ev :=
  [.streamFrame [] true, .exec {}, .exec {}, .exec {}, .exec {}, .exec {}, .exec {}, .exec {}, .exec {}]

def lateEndOfFile : List Ev := [.tick 5, .receiveDone (some []), .exec {}, .exec {}, .exec {}]

theorem fin_written_last_peerFinishes : ∃ v w, Lts.run step (init true [] {} 0 {} 0) oneByteSent = some v ∧
    Lts.run step v peerFinishes = some w ∧ w.tunnel.tcpReceiveDone = true ∧ w.log.countP isFin ≤ 1 := by
  refine ⟨_, _, rfl, rfl, rfl, (fin_written_last true [] {} 0 {} 0 oneByteSent peerFinishes _ _ rfl rfl ?_).1⟩
  refine Lts.allSteps_of_forall _ fun e he _ bs heq => ?_
  subst heq
  simp [oneByteSent, peerFinishes] at he

/-- The end of file writes the FIN a second time and moves `send_done_time_`. -/
theorem late_end_of_file_writes_again : ∃ v w, Lts.run step (init true [] {} 0 {} 0) (oneByteSent ++ peerFinishes) =
    some v ∧ Lts.run step v lateEndOfFile = some w ∧ v.tunnel.tcpReceiveDone = true ∧ v.log.countP isFin = 1 ∧
    w.log = v.log ++ [.receiveComplete (.slice []), .writeToStream [] true] ∧
    v.tunnel.sendDoneTime = 0 ∧ w.tunnel.sendDoneTime = 5 :=
  ⟨_, _, rfl, rfl, rfl, rfl, rfl, rfl, rfl⟩

/-! ## A finished tunnel has written its FIN -/

def closingFinished : Op → Bool
  | .close .tunnelFinished _ => true
  | _ => false

def sendable (w : World) : Bool := w.connected && w.stream.sendOpen

/-- A tunnel that has finished sending has written its FIN, or is about to, and one that closes as finished has
written it. -/
structure FinWritten (w : World) : Prop where
  shut : w.stream.writeSideClosed = true → w.sendable = false
  done : w.tunnel.tcpReceiveDone = true → has finishing w.todo = true ∨ w.sendable = false
  finished : has closingFinished w.todo = true → w.sendable = false

def Onward (w v : World) : Prop := v.connected = true → w.connected = true ∧ w.stream.Onward v.stream

variable {w v : World} {op : Op} {rest : List Op}

theorem Onward.sendable (ho : Onward w v) (h : w.sendable = false) : v.sendable = false := by
  rw [eq_false_iff] at h ⊢
  intro hv
  obtain ⟨hc, hs⟩ := and_eq_true_iff.1 hv
  obtain ⟨hcw, hsw⟩ := ho hc
  exact h (and_eq_true_iff.2 ⟨hcw, hsw.opens hs⟩)

theorem FinWritten.step (h : FinWritten w) (ho : Onward w v)
    (hd : v.tunnel.tcpReceiveDone = true → w.tunnel.tcpReceiveDone = true ∨ has finishing v.todo = true)
    (hf : has finishing w.todo = true → has finishing v.todo = true ∨ v.sendable = false)
    (hc : has closingFinished v.todo = true →
      has closingFinished w.todo = true ∨ w.tunnel.tcpReceiveDone = true ∧ has finishing w.todo = false) :
    FinWritten v where
  shut hs := by
    cases hv : v.connected with
    | true =>
      rcases (ho hv).2.shut hs with hs | hs
      · exact ho.sendable (h.shut hs)
      · rw [World.sendable, hs, Bool.and_false]
    | false => rw [World.sendable, hv, Bool.false_and]
  done hv := by
    rcases hd hv with hw | hv
    · exact (h.done hw).elim hf fun hs => .inr (ho.sendable hs)
    · exact .inl hv
  finished hv := by
    apply ho.sendable
    rcases hc hv with hw | ⟨hw, hn⟩
    · exact h.finished hw
    · exact (h.done hw).resolve_left (by simp [hn])

theorem afterCall_up (w : World) (a : Answer) {r : QuictunStream × Bool} {ops : List Op}
    (hv : (w.afterCall a r ops).connected = true) : w.connected = true ∧ (w.afterCall a r ops).stream = r.1 := by
  obtain ⟨hc, hf⟩ := and_eq_true_iff.1 hv
  rw [not_eq_true'] at hf
  exact ⟨hc, by simp [afterCall, World.push, hf]⟩

theorem onward_afterCall (w : World) (a : Answer) {r : QuictunStream × Bool} {ops : List Op} (h : w.stream.Onward r.1) :
    Onward w (w.afterCall a r ops) := by
  intro hv
  obtain ⟨hc, hs⟩ := afterCall_up w a hv
  exact ⟨hc, hs ▸ h⟩

theorem exec_onward (w : World) (a : Answer) (op : Op) : Onward w (w.exec a op) := by
  have hother : op.changes .stream = false → Onward w (w.exec a op) := by
    intro hs hv
    have hl := exec_leaves w a op
    exact ⟨hl.connected hv, hl.stream hs ▸ .refl w.stream⟩
  cases op with
  | read => exact onward_afterCall _ a (w.stream.onward_read _)
  | writeToStream data fin => exact onward_afterCall _ a (w.stream.onward_writeToStream data fin _ _)
  | stopReading => exact onward_afterCall w a (w.stream.onward_stopReading _)
  | reset => exact onward_afterCall _ a w.stream.onward_reset
  | onClosed b => exact onward_afterCall _ a (.refl w.stream)
  | _ => exact hother rfl

theorem closingFinished_pushes {ops : List Op} (h : Pushes op ops)
    (hop : op ≠ .onFlushCloseAlarm ∧ op ≠ .maybeFinalizeClose) : has closingFinished ops = false := by
  cases h with
  | cancelled k =>
    unfold cancelled
    split <;> split <;> split <;> rfl
  | finalize _ r b h => exact absurd h (not_or.2 hop)
  | _ => rfl

theorem exec_finWritten (hi : Inv w) (ht : w.todo = op :: rest) (a : Answer) (h : FinWritten w) :
    FinWritten ((w.pop rest).exec a op) := by
  obtain ⟨ops, hp, he⟩ := exec_pushes (w.pop rest) a op
  have hnf : has finishing rest = false := not_has_of_all (fun o ho => hi.below o (by rw [ht]; exact ho)) fun o ho => by
    unfold Op.deferred at ho
    split at ho <;> trivial
  have hfinal : finishing op = false → has closingFinished (maybeFinalizeClose (w.pop rest)).todo = true →
      has closingFinished w.todo = true ∨ w.tunnel.tcpReceiveDone = true ∧ has finishing w.todo = false := by
    intro hop hv
    cases hd : w.tunnel.tcpReceiveDone with
    | true => exact .inr ⟨rfl, by rw [ht, has_cons, hop, hnf]; rfl⟩
    | false =>
      rw [maybeFinalizeClose, if_pos (by simp [hd])] at hv
      rw [ht, has_cons, hv, Bool.or_true]
      exact .inl rfl
  refine h.step (exec_onward (w.pop rest) a op) ?_ ?_ ?_
  · cases op with
    | receiveComplete data =>
      simp only [exec, receiveComplete, finishSending]
      (repeat' split) <;> first | exact .inl | exact fun _ => .inr rfl
    | maybeCloseAfterQuicFin =>
      simp only [exec, maybeCloseAfterQuicFin, finishSending]
      (repeat' split) <;> first | exact .inl | exact fun _ => .inr rfl
    | _ => exact fun hv => .inl (((exec_leaves (w.pop rest) a _).done rfl).symm.trans hv)
  · intro hw
    rw [ht, has_cons, hnf, Bool.or_false] at hw
    obtain ⟨data, rfl⟩ : ∃ data, op = .writeToStream data true := by
      unfold finishing at hw
      split at hw
      · exact ⟨_, rfl⟩
      · cases hw
    refine .inr (eq_false_iff.2 fun hv => ?_)
    obtain ⟨hc, ho⟩ := and_eq_true_iff.1 hv
    have hs := (afterCall_up (World.record (w.pop rest) (.writeToStream data true)) a hc).2
    rw [exec, World.writeToStream, hs] at ho
    have hn := (exec_onward (w.pop rest) a (.writeToStream data true)).sendable
      (h.shut (w.stream.writeToStream_fin data a.taken a.finTaken ho))
    exact absurd hv (by simp [hn])
  · cases op with
    | maybeFinalizeClose | onFlushCloseAlarm => exact hfinal rfl
    | _ =>
      intro hv
      rw [he, has_append, closingFinished_pushes hp (by simp), Bool.false_or] at hv
      rw [ht, has_cons, hv, Bool.or_true]
      exact .inl rfl

variable {w' : World} {e : Ev}

theorem deliver_finWritten (h : FinWritten w) (ht : w.todo = []) (hw : w.deliver e = some w') : FinWritten w' := by
  have hn : ∀ r, has closingFinished (w.notified r).todo = false := by
    rintro ⟨s, _ | _ | _ | _⟩ <;> rfl
  have hd : w'.tunnel.tcpReceiveDone = w.tunnel.tcpReceiveDone := by
    obtain ⟨x, y, s, k, c, ops, rfl, -⟩ := deliver_eq ht hw
    rfl
  refine h.step ?_ (fun hv => .inl (hd.symm.trans hv)) (fun hf => by rw [ht] at hf; cases hf) ?_
  · cases deliver_cases hw with
    | streamFrame bs fin => exact fun hv => ⟨hv, w.stream.onward_onStreamFrame bs fin⟩
    | streamReset error => exact fun hv => ⟨hv, w.stream.onward_onStreamReset error⟩
    | stopSending error => exact fun hv => ⟨hv, w.stream.onward_onStopSending error⟩
    | canWrite k f => exact fun hv => ⟨hv, w.stream.onward_onCanWrite k f⟩
    | connectionClosed => exact nofun
    | _ => exact fun hv => ⟨hv, id, .inl⟩
  · intro hv
    cases deliver_cases hw with
    | dials => exact .inl hv
    | _ => first | cases hv | cases (hn _).symm.trans hv

section
variable {client : Bool} {seed : Bytes} {s : QuictunStream} {me : Nat} {k : QuictunIdleTracker Nat} {now : Time}
  {es : List Ev}
  (hs : s.writeSideClosed = true → s.sendOpen = false) (hrun : Lts.run step (init client seed s me k now) es = some w)
include hs hrun

theorem run_finWritten : FinWritten w := by
  have h0 : FinWritten (init client seed s me k now) := ⟨hs, nofun, nofun⟩
  have hstep : ∀ w e w', Inv w ∧ FinWritten w → w.step e = some w' → Inv w' ∧ FinWritten w' := by
    intro w e w' ⟨hi, h⟩ hw
    refine ⟨step_inv hi hw, ?_⟩
    rcases step_cases hw with ⟨a, op, rest, -, ht, rfl⟩ | ⟨d, rfl⟩ | ⟨k, -, rfl⟩ | ⟨ht, hw⟩
    · exact exec_finWritten hi ht a h
    · exact { h with }
    · exact { h with }
    · exact deliver_finWritten h ht hw
  exact (Lts.run_inv hstep ⟨init_inv .., h0⟩ hrun).2

/-- **A finished tunnel leaves no open write side behind.** A tunnel that closes without a reset for being finished has
written its FIN, unless the stream was reset before or the connection is down. -/
theorem finished_after_fin (hc : w.connected = true) {reset : Bool}
    (ht : w.todo = .close .tunnelFinished reset :: rest) :
    w.stream.sendOpen = false := by
  have h := (run_finWritten hs hrun).finished (by rw [ht]; rfl)
  rwa [sendable, hc, Bool.true_and] at h

end

theorem finished_after_fin_acked : ∃ w, Lts.run step (init true [] {} 0 {} 0)
      (oneByteSent ++ peerFinishes ++ [.ack 1 true, .tick 100000, .alarm, .exec {}]) = some w ∧
    w.todo = [.close .tunnelFinished false] ∧ w.stream.sendOpen = false := by
  have hr : Lts.run step (init true [] {} 0 {} 0)
      (oneByteSent ++ peerFinishes ++ [.ack 1 true, .tick 100000, .alarm, .exec {}]) = some _ := rfl
  exact ⟨_, hr, rfl, finished_after_fin (by rintro ⟨⟩) hr rfl rfl⟩

end World

/-! ## The tunnels of a connection -/

namespace QuictunServerConnection

/-- The tunnels are those of `World`: one that closes without a reset is at the end of a run of its own, on the
stream that the connection has for it. -/
def ClosesAsWorld (c : QuictunServerConnection) : Server.Ev → Prop
  | .closeTunnel id false => ∃ client seed s me k now es w rest, (s.writeSideClosed = true → s.sendOpen = false) ∧
      Lts.run World.step (World.init client seed s me k now) es = some w ∧ w.connected = true ∧
      w.todo = .close .tunnelFinished false :: rest ∧ c.streams id = some w.stream
  | _ => True

theorem ClosesAsWorld.finished {c : QuictunServerConnection} {e : Server.Ev} (h : c.ClosesAsWorld e) :
    c.closesUnfinished e = false := by
  unfold closesUnfinished
  split
  · obtain ⟨_, _, _, _, _, _, _, w, _, hw, hrun, hc, ht, hs⟩ := h
    have hf := (World.run_finWritten hw hrun).finished (by rw [ht]; rfl)
    rw [World.sendable, hc, Bool.true_and] at hf
    rw [hs, Option.any_some, hf]
  · rfl

/-- The connection and its tunnels together: no stream is abandoned if none ends before its preamble. -/
theorem owned_of_worlds {psk : Bytes} {transparent : Bool} {es : List Server.Ev} {c : QuictunServerConnection}
    (hrun : Lts.run step (init psk transparent) es = some c)
    (hsteps : Lts.AllSteps step (fun c e => c.finTooEarly e = false ∧ c.ClosesAsWorld e) (init psk transparent) es)
    (hidle : c.todo = []) (hconn : c.connected = true) (id : Nat) (s : QuictunStream)
    (hs : c.streams id = some s) (hfin : s.finBuffered = false) (hrst : s.rstSent = false) : c.Owned id := by
  have h : Attended (Decided psk transparent) c :=
    Lts.run_inv_of (fun c e c' h hc hs => step_attended h hc.1 hc.2.finished hs)
      (init_attended psk transparent) hsteps hrun
  exact h.owned hidle hconn id s hs hfin hrst

end QuictunServerConnection

end Quictun
