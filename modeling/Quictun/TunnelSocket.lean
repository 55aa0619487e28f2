import Quictun.TunnelCore

/-!
# Socket and shutdown discipline

What a tunnel does to its socket, its owner and its stream on the way down: it is
unlinked before it calls out, disconnects a socket once and only one that did not
fail to connect, and resets the stream only when its owner has been told.
-/

namespace Quictun

open Stack QuictunIdleTracker List

namespace World

theorem afterCall_eq (w : World) (a : Answer) (r : QuictunStream × Bool) (ops : List Op) :
    ∃ s c g, w.afterCall a r ops =
      { w with stream := s, connected := c }.push (if g = true then .onStreamGone :: ops else ops) :=
  ⟨_, _, _, rfl⟩

/-! ## The tunnel is filed as its fields say -/

def IsFiled (w : World) : Prop := w.tracker.Filed w.me w.tunnel.toIdleState

section
variable {w : World}

theorem noteActivity_idle (w : World) : w.noteActivity.tunnel.toIdleState =
    (w.tracker.noteActivity w.me w.tunnel.toIdleState w.now w.isHoldingBuffer).2 := by
  unfold noteActivity QuictunIdleTracker.noteActivity
  split <;> rfl

theorem updateIdleClass_idle (w : World) : w.updateIdleClass.tunnel.toIdleState =
    (w.tracker.updateIdleClass w.me w.tunnel.toIdleState w.now w.isHoldingBuffer).2 := by
  unfold updateIdleClass QuictunIdleTracker.updateIdleClass
  split
  · rfl
  · split <;> rfl

section
variable (h : IsFiled w)
include h

theorem IsFiled.noteActivity (hs : w.tunnel.started = true) : IsFiled w.noteActivity := by
  unfold IsFiled
  rw [noteActivity_idle]
  exact filed_noteActivity h hs _ _

theorem IsFiled.updateIdleClass : IsFiled w.updateIdleClass := by
  unfold IsFiled
  rw [updateIdleClass_idle]
  exact filed_updateIdleClass h _ _

theorem IsFiled.start (hc : w.tunnel.closed = false) (seed : Bytes) : IsFiled (w.start seed) := by
  show IsFiled (w.launch seed).noteActivity
  unfold IsFiled
  rw [noteActivity_idle]
  exact filed_start h hc _ _

theorem IsFiled.enqueue (hs : w.tunnel.started = true) (data : Bytes) : IsFiled (w.enqueue data) := by
  unfold World.enqueue
  split
  · exact h
  · exact h.noteActivity hs

theorem IsFiled.receiveComplete {data : Received} (hp : w.pre (.receiveComplete data)) :
    IsFiled (w.receiveComplete data) := by
  unfold World.receiveComplete
  split
  · exact h
  next hc =>
    rw [Bool.not_eq_true] at hc
    split
    · exact h
    · exact IsFiled.noteActivity (w := w.receiveArrived _) h (hp.2 hc)
    · exact h

theorem IsFiled.fillAfterRead (hs : w.tunnel.started = true) (data : Bytes) (fin : Bool) :
    IsFiled (w.fillAfterRead data fin) := by
  unfold World.fillAfterRead
  split
  · exact IsFiled.updateIdleClass (w := (w.enqueue data).quicFinished) (h.enqueue hs data)
  split
  · exact h.updateIdleClass
  · exact h.enqueue hs data

theorem IsFiled.close (reason : CloseReason) (b : Bool) : IsFiled (w.close reason b) := by
  have h' : IsFiled (w.shut reason) := filed_close h
  unfold World.close
  split <;> exact h'

end

end

variable {w : World} {op : Op} {rest : List Op}

theorem exec_filed (hi : Inv w) (ht : w.todo = op :: rest) (a : Answer)
    (h : IsFiled w) : IsFiled ((w.pop rest).exec a op) := by
  have hp : World.pre (w.pop rest) op := hi.top op (by rw [ht]; rfl)
  have hr : op.running = true → w.tunnel.started = true := fun hr => hi.running (by rw [ht, has_cons, hr]; rfl)
  have h : IsFiled (w.pop rest) := h
  cases op with
  | start seed => exact h.start hp.1 seed
  | onStreamCanWriteMore =>
    simp only [exec, onStreamCanWriteMore]
    split
    · exact h
    split
    · exact h
    split <;> exact h.updateIdleClass
  | receiveComplete data => exact h.receiveComplete hp
  | fillQueueFromStream =>
    simp only [exec, fillQueueFromStream]
    split
    · exact h
    · exact h.updateIdleClass
  | fillAfterRead data fin => exact h.fillAfterRead (hr rfl) data fin
  | receiveEnd | flushEnd => exact h.updateIdleClass
  | close reason b => exact h.close reason b
  | read | writeToStream | stopReading | onClosed | reset => exact h
  -- the rest does not touch the tracker or the fields it goes by
  | _ =>
    simp only [exec, onStreamDataAvailable, onStreamGone, connectComplete, sendComplete, beginReadFromTcp,
      maybeFlushQuicToTcp, maybeCloseAfterQuicFin, maybeFinalizeClose, armAlarm, receiveAfterWrite,
        closeAfterStopReading, closeAfterDisconnect,
      onClosedReturned, closeAfterOnClosed, receiveAsync, sendAsync, disconnect]
    repeat' split
    all_goals exact h

/-! ## The owner is told once, before the stream is reset -/

def unnotified : Op → Bool
  | .closeAfterStopReading _ | .closeAfterDisconnect _ => true
  | _ => false

def afterNotice : Op → Bool
  | .closeAfterOnClosed _ | .reset => true
  | _ => false

structure Notified (w : World) : Prop where
  ready : w.tunnel.closed = false → w.tunnel.onClosed = true
  once : w.todo.countP unnotified ≤ w.tunnel.onClosed.toNat
  returned : has afterNotice w.todo = true → .onClosedReturned ∈ w.log

theorem Notified.pop (h : Notified w) (ht : w.todo = op :: rest) : Notified (w.pop rest) where
  ready := h.ready
  once := by
    have := h.once
    rw [ht, countP_cons] at this
    exact Nat.le_trans (Nat.le_add_right _ _) this
  returned hr := h.returned (by rw [ht, has_cons, hr, Bool.or_true])

theorem Notified.next (hc : w.tunnel.closed = true) (ho : w.tunnel.onClosed = true)
    (hu : w.todo.countP unnotified = 0) (hr : has afterNotice w.todo = true → .onClosedReturned ∈ w.log)
    {ops : List Op} (h1 : ops.countP unnotified ≤ 1) (ha : has afterNotice ops = false) : Notified (w.push ops) where
  ready hc' := by cases hc.symm.trans hc'
  once := by
    show (ops ++ w.todo).countP unnotified ≤ w.tunnel.onClosed.toNat
    rw [countP_append, hu, ho]
    exact h1
  returned hr' := hr (by rwa [World.push, has_append, ha, Bool.false_or] at hr')

def shutting : Op → Bool
  | .close _ _ | .closeAfterStopReading _ | .closeAfterDisconnect _ | .onClosedReturned _ |
    .closeAfterOnClosed _ => true
  | _ => false

theorem notice_pushes {ops : List Op} (h : Pushes op ops) (hop : shutting op = false) :
    ops.countP unnotified = 0 ∧ has afterNotice ops = false := by
  cases h with
  | cancelled k =>
    unfold cancelled
    split <;> split <;> split <;> exact ⟨rfl, rfl⟩
  | _ => first | (cases hop; done) | exact ⟨rfl, rfl⟩

theorem exec_notified (hi : Inv w) (ht : w.todo = op :: rest) (a : Answer)
    (h : Notified w) : Notified ((w.pop rest).exec a op) := by
  have h' : Notified (w.pop rest) := h.pop ht
  have hlast : unnotified op = true → w.tunnel.onClosed = true ∧ rest.countP unnotified = 0 := by
    intro hu
    have := h.once
    rw [ht, countP_cons_of_pos hu] at this
    cases ho : w.tunnel.onClosed with
    | false => rw [ho] at this; cases this
    | true => rw [ho, Bool.toNat_true] at this; exact ⟨rfl, by omega⟩
  have hc : op.closing = true → w.tunnel.closed = true := fun hc => hi.closing (by rw [ht, has_cons, hc]; rfl)
  have hlog : ∀ c, has afterNotice rest = true → .onClosedReturned ∈ w.log ++ [c] :=
    fun c hr => mem_append_left _ (h'.returned hr)
  have hother : shutting op = false → op.changes .closed = false → op.changes .onClosed = false →
      Notified ((w.pop rest).exec a op) := by
    intro hop hcl hon
    obtain ⟨ops, hp, he⟩ := exec_pushes (w.pop rest) a op
    obtain ⟨hu, ha⟩ := notice_pushes hp hop
    have hl := exec_leaves (w.pop rest) a op
    refine ⟨fun hc => ?_, ?_, fun hr => ?_⟩
    · rw [hl.onClosed hon]
      exact h.ready ((hl.closed hcl).symm.trans hc)
    · rw [he, countP_append, hu, Nat.zero_add, hl.onClosed hon]
      exact h'.once
    · rw [he, has_append, ha, Bool.false_or] at hr
      rw [hl.log]
      exact mem_append_left _ (h'.returned hr)
  cases op with
  | close reason b =>
    have ho : w.tunnel.closed = false := hi.top (.close reason b) (by rw [ht]; rfl)
    have h0 : rest.countP unnotified = 0 := by
      rw [countP_eq_zero]
      intro o ho' hu
      have : o.closing = true := by cases o <;> trivial
      cases ho.symm.trans (hi.closing (has_of_mem (by rw [ht]; exact mem_cons_of_mem _ ho') this))
    simp only [exec, close]
    split <;> exact Notified.next (w := World.shut (w.pop rest) reason) rfl (h'.ready ho) h0 (hlog _)
      (Nat.le_refl 1) rfl
  | closeAfterStopReading b =>
    obtain ⟨ho, h0⟩ := hlast rfl
    simp only [exec, closeAfterStopReading]
    split
    · exact Notified.next (w := World.disconnected (w.pop rest)) (hc rfl) ho h0 h'.returned (Nat.le_refl 1) rfl
    · exact Notified.next (w := w.pop rest) (hc rfl) ho h0 h'.returned (Nat.le_refl 1) rfl
  | closeAfterDisconnect b =>
    obtain ⟨ho, h0⟩ := hlast rfl
    simp only [exec, closeAfterDisconnect]
    split
    · exact ⟨fun hc' => (by cases (hc rfl).symm.trans hc'), Nat.le_of_eq h0, h'.returned⟩
    next hn =>
      exact absurd ho hn
  | onClosedReturned b =>
    refine ⟨h'.ready, h'.once, fun _ => ?_⟩
    exact mem_append_right _ (mem_singleton.2 rfl)
  | closeAfterOnClosed b =>
    simp only [exec, closeAfterOnClosed]
    split
    · exact ⟨h'.ready, h'.once, fun _ => h.returned (by rw [ht]; rfl)⟩
    · exact h'
  | _ => exact hother rfl rfl rfl

/-! ## A socket that failed to connect is not disconnected -/

def closeBegun : Op → Bool
  | .closeAfterStopReading _ => true
  | _ => false

def connectFailed : Op → Bool
  | .connectComplete .failed => true
  | _ => false

def disconnecting : Op → Bool
  | .disconnect => true
  | _ => false

/-- An unconnected socket that may still be disconnected is one whose failure is being reported. -/
structure Attempted (w : World) : Prop where
  status : w.tunnel.hasSocket = true → w.tunnel.socketDisconnected = false →
    w.tunnel.closed = false ∨ has closeBegun w.todo = true → w.socket.status = .notConnected →
    has connectFailed w.todo = true
  alone : has connectFailed w.todo = true → w.todo.tail = []
  live : has disconnecting w.todo = true → w.socket.status ≠ .notConnected

def Quiet (l : List Op) : Prop := has connectFailed l = false ∧ has disconnecting l = false

theorem Attempted.of_quiet (hq : Quiet w.todo) (hs : w.tunnel.hasSocket = true → w.tunnel.socketDisconnected = false →
      w.tunnel.closed = false ∨ has closeBegun w.todo = true → w.socket.status ≠ .notConnected) : Attempted w where
  status h1 h2 h3 h4 := absurd h4 (hs h1 h2 h3)
  alone h' := by cases hq.1.symm.trans h'
  live h' := by cases hq.2.symm.trans h'

theorem quiet_of_deferred {l : List Op} (h : ∀ op ∈ l, op.deferred = true) : Quiet l := by
  refine ⟨not_has_of_all h fun o ho => ?_, not_has_of_all h fun o ho => ?_⟩
  · unfold Op.deferred at ho
    split at ho <;> trivial
  · unfold Op.deferred at ho
    split at ho <;> trivial

theorem quiet_pushes {ops : List Op} (h : Pushes op ops) (hcl : op.changes .closed = false)
    (hop : closeBegun op = false) :
    Quiet ops ∧ has closeBegun ops = false := by
  cases h with
  | cancelled k =>
    unfold cancelled
    split <;> split <;> split <;> exact ⟨⟨rfl, rfl⟩, rfl⟩
  | _ => first | (cases hop; done) | (cases hcl; done) | exact ⟨⟨rfl, rfl⟩, rfl⟩

theorem exec_attempted (hi : Inv w) (ht : w.todo = op :: rest) (a : Answer)
    (h : Attempted w) : Attempted ((w.pop rest).exec a op) := by
  have hq : Quiet rest := quiet_of_deferred fun o ho => hi.below o (by rw [ht]; exact ho)
  have hs : w.tunnel.hasSocket = true → w.tunnel.socketDisconnected = false → connectFailed op = false →
      w.tunnel.closed = false ∨ has closeBegun (op :: rest) = true → w.socket.status ≠ .notConnected := by
    intro h1 h2 hop h3 h4
    have := h.status h1 h2 (by rwa [ht]) h4
    rw [ht, has_cons, hop, hq.1] at this
    cases this
  have hlater : connectFailed op = false → w.tunnel.hasSocket = true → w.tunnel.socketDisconnected = false →
      w.tunnel.closed = false ∨ has closeBegun rest = true → w.socket.status ≠ .notConnected := by
    intro hop h1 h2 h3
    refine hs h1 h2 hop (h3.imp_right fun h3 => ?_)
    rw [has_cons, h3, Bool.or_true]
  obtain ⟨ops, hp, he⟩ := exec_pushes (w.pop rest) a op
  have hl := exec_leaves (w.pop rest) a op
  have hquiet : op.changes .closed = false → closeBegun op = false → Quiet ((w.pop rest).exec a op).todo ∧
      has closeBegun ((w.pop rest).exec a op).todo = has closeBegun rest := by
    intro hcl hop
    obtain ⟨hq', hb⟩ := quiet_pushes hp hcl hop
    rw [he]
    refine ⟨⟨?_, ?_⟩, ?_⟩
    · rw [has_append, hq.1, hq'.1]; rfl
    · rw [has_append, hq.2, hq'.2]; rfl
    · rw [has_append, hb, Bool.false_or]
  have hother : closeBegun op = false → connectFailed op = false → op.changes .closed = false →
      op.changes .socketDisconnected = false → op.changes .status = false →
      Attempted ((w.pop rest).exec a op) := by
    intro hop hcf hcl hsd hst
    refine .of_quiet (hquiet hcl hop).1 fun h1 h2 h3 => ?_
    rw [(hquiet hcl hop).2, hl.closed hcl] at h3
    rw [hl.status hst]
    exact hlater hcf (hl.hasSocket.symm.trans h1) ((hl.socketDisconnected hsd).symm.trans h2) h3
  cases op with
  | connectComplete status =>
    refine .of_quiet (hquiet rfl rfl).1 ?_
    simp only [exec, connectComplete]
    split
    next hc =>
      cases status with
      | failed =>
        obtain rfl : rest = [] := by
          have := h.alone (by rw [ht]; rfl)
          rwa [ht] at this
        intro _ _ h3
        rcases h3 with h3 | h3
        · exact absurd hc (by simp [show w.tunnel.closed = false from h3])
        · cases h3
      | ok | cancelled => exact hlater rfl
    split
    next hok =>
      subst hok
      exact hlater rfl
    · exact fun _ h => by cases h
  | close reason b =>
    have hc : w.tunnel.closed = false := hi.top (.close reason b) (by rw [ht]; rfl)
    simp only [exec, close]
    split <;> exact .of_quiet hq fun h1 h2 _ => hs h1 h2 rfl (.inl hc)
  | closeAfterStopReading b =>
    simp only [exec, closeAfterStopReading]
    split
    next hg =>
      simp only [Bool.and_eq_true, Bool.not_eq_true'] at hg
      exact ⟨fun _ h => (by cases h), fun h' => (by cases hq.1.symm.trans h'), fun _ => hs hg.1 hg.2 rfl (.inr rfl)⟩
    · exact .of_quiet hq fun h1 h2 _ => hs h1 h2 rfl (.inr rfl)
  | disconnect =>
    have hd : w.tunnel.socketDisconnected = true := (hi.top .disconnect (by rw [ht]; rfl)).1
    exact .of_quiet (hquiet rfl rfl).1 fun _ h2 => by cases hd.symm.trans h2
  | _ => exact hother rfl rfl rfl rfl rfl

/-! ## Whole runs -/

section
variable {w w' : World} {e : Ev}

theorem deliver_notified (h : Notified w) (ht : w.todo = []) (hw : w.deliver e = some w') : Notified w' := by
  obtain ⟨x, y, s, k, c, ops, rfl, ho, -⟩ := deliver_eq ht hw
  have hu : ops.countP unnotified = 0 ∧ has afterNotice ops = false := by
    rcases ho with rfl | ⟨op, rfl, he⟩
    · exact ⟨rfl, rfl⟩
    · cases op <;> first | exact ⟨rfl, rfl⟩ | cases he
  exact ⟨h.ready, by rw [hu.1]; exact Nat.zero_le _, fun hr => by cases hu.2.symm.trans hr⟩

theorem deliver_filed (h : IsFiled w) (ht : w.todo = []) (hw : w.deliver e = some w') : IsFiled w' := by
  obtain ⟨x, y, s, k, c, ops, rfl, -, -⟩ := deliver_eq ht hw
  exact h

theorem deliver_attempted (h : Attempted w) (ht : w.todo = []) (hw : w.deliver e = some w') : Attempted w' := by
  obtain ⟨x, y, s, k, c, ops, rfl, ho, hk⟩ := deliver_eq ht hw
  have hb : has closeBegun ops = false ∧ ops.tail = [] ∧ has disconnecting ops = false := by
    rcases ho with rfl | ⟨op, rfl, he⟩
    · exact ⟨rfl, rfl, rfl⟩
    · cases op <;> first | exact ⟨rfl, rfl, rfl⟩ | cases he
  refine ⟨fun h1 h2 h3 h4 => ?_, fun _ => hb.2.1, fun h' => (by cases hb.2.2.symm.trans h')⟩
  rcases hk with ⟨hk, rfl⟩ | hk | rfl
  · have h3 : w.tunnel.closed = false := h3.resolve_right fun h' => by cases hb.1.symm.trans h'
    have := h.status h1 h2 (.inl h3) (hk.symm.trans h4)
    rw [ht] at this
    cases this
  · exact absurd h4 hk
  · rfl

end

structure Discipline (w : World) : Prop extends Inv w, Notified w, Attempted w where
  filed : IsFiled w

theorem step_discipline {w w' : World} {e : Ev} (h : Discipline w) (hw : w.step e = some w') : Discipline w' := by
  have hi := step_inv h.toInv hw
  rcases step_cases hw with ⟨a, op, rest, -, ht, rfl⟩ | ⟨d, rfl⟩ | ⟨k, hk, rfl⟩ | ⟨ht, hw⟩
  · exact { hi, exec_notified h.toInv ht a h.toNotified, exec_attempted h.toInv ht a h.toAttempted with
      filed := exec_filed h.toInv ht a h.filed }
  · exact { h with }
  · refine { h with filed := ?_ }
    unfold sameFor at hk
    simp only [Bool.and_eq_true, beq_iff_eq] at hk
    have hl : ∀ b, (w.tracker.list b).count w.me = (k.list b).count w.me := by
      intro b
      cases b
      · exact hk.1
      · exact hk.2
    have hf := h.filed
    unfold IsFiled QuictunIdleTracker.Filed QuictunIdleTracker.Linked QuictunIdleTracker.Unlinked at hf ⊢
    simpa only [hl] using hf
  · exact { hi, deliver_notified h.toNotified ht hw, deliver_attempted h.toAttempted ht hw with
      filed := deliver_filed h.filed ht hw }

variable {me : Nat} {k : QuictunIdleTracker Nat}

theorem init_discipline (client : Bool) (seed : Bytes) (s : QuictunStream)
    (hk : k.Unlinked me) (now : Time) : Discipline (init client seed s me k now) where
  toInv := init_inv ..
  ready _ := rfl
  once := Nat.zero_le _
  returned := nofun
  status h1 _ _ h4 := by
    subst h1
    cases h4
  alone := nofun
  live := nofun
  filed := hk

theorem run_discipline {client : Bool} {seed : Bytes} {s : QuictunStream} {now : Time} {es : List Ev}
    (hk : k.Unlinked me)
    (h : Lts.run step (init client seed s me k now) es = some w) : Discipline w :=
  Lts.run_inv (fun _ _ _ hi hs => step_discipline hi hs) (init_discipline client seed s hk now) h

/-- **Socket and shutdown discipline**, at every point of every run: operations are started one at a time on a
connected socket, the socket is disconnected once at most and the owner told once at most, before the stream is
reset. -/
theorem socket_discipline (client : Bool) (seed : Bytes) (s : QuictunStream) (me : Nat) (k : QuictunIdleTracker Nat)
    (now : Time) (hk : k.Unlinked me) (es : List Ev) (w : World)
    (hrun : Lts.run step (init client seed s me k now) es = some w) :
    (∀ rest, w.todo = .receiveAsync :: rest →
      w.socket.receiving = false ∧ w.socket.status = .connected ∧ w.tunnel.closed = false) ∧
    (∀ chunk rest, w.todo = .sendAsync chunk :: rest →
      w.socket.sending = false ∧ w.socket.status = .connected ∧ w.tunnel.closed = false) ∧
    (∀ rest, w.todo = .disconnect :: rest → w.socket.status ≠ .notConnected) ∧
    w.log.count .disconnect ≤ 1 ∧
    (∀ b rest, w.todo = .onClosed b :: rest →
      w.tunnel.closed = true ∧ w.me ∉ w.tracker.order ∧ w.me ∉ w.tracker.stalledOrder) ∧
    w.log.count .onClosed ≤ 1 ∧
    (∀ rest, w.todo = .reset :: rest → .onClosedReturned ∈ w.log) := by
  have h := run_discipline hk hrun
  refine ⟨fun rest ht => ?_, fun chunk rest ht => ?_, fun rest ht => ?_, h.disconnects, fun b rest ht => ?_,
    h.notified, fun rest ht => ?_⟩
  · obtain ⟨hc, hf, _, hr⟩ := h.top .receiveAsync (by rw [ht]; rfl)
    exact ⟨hr, (h.socket (h.receivingStarted hf) hc).1, hc⟩
  · obtain ⟨hc, hf, hr⟩ := h.top (.sendAsync chunk) (by rw [ht]; rfl)
    exact ⟨hr, (h.socket (h.sendingStarted hf) hc).1, hc⟩
  · exact h.live (by rw [ht]; rfl)
  · have hc : w.tunnel.closed = true := h.closing (by rw [ht]; rfl)
    have hf := h.filed
    rw [IsFiled, QuictunIdleTracker.Filed, if_neg (by simp [hc])] at hf
    exact ⟨hc, count_eq_zero.1 (hf false), count_eq_zero.1 (hf true)⟩
  · exact h.returned (by rw [ht]; rfl)

def abandonedDial : List Ev :=
  [.dial none, .ownerClose true, .exec {}, .exec {}, .exec {}, .exec {}, .exec {}, .exec {}]

theorem socket_discipline_abandonedDial : ∃ w, Lts.run step (init false [1] {} 0 { order := [5] } 0) abandonedDial =
    some w ∧ w.todo = [.onClosed true] ∧ w.log = [.close .byOwner, .disconnect] ∧
    w.tunnel.closed = true ∧ w.me ∉ w.tracker.order ∧ w.me ∉ w.tracker.stalledOrder :=
  ⟨_, rfl, rfl, rfl, (socket_discipline false [1] {} 0 { order := [5] } 0 (by intro b; cases b <;> rfl)
    abandonedDial _ rfl).2.2.2.2.1 true [] rfl⟩

end World

end Quictun
