import Quictun.TunnelCore

/-!
# How deep the pump of a tunnel nests

`ReceiveAsync()` and `SendAsync()` complete before they return whenever the kernel is ready,
and the completions start the next operation themselves. A completion called with `rest`
below it has not returned while the stack is longer than `rest`: `frames` keeps the
completions that were called and the length of what was below them.

The nesting is bounded by the amount of data alone. It is bounded by a constant if no
operation that a completion starts completes before it returns.
-/

namespace Quictun

open World List

inductive Completion
  | receive | send
deriving DecidableEq

def Op.completion : Op → Option Completion
  | .receiveComplete _ => some .receive
  | .sendComplete _ => some .send
  | _ => none

structure CallStack where
  world : World
  /-- Completions and the length of the stack below them, innermost first. -/
  frames : List (Completion × Nat) := []
deriving DecidableEq

namespace CallStack

section
variable (s : CallStack)

def active : List (Completion × Nat) := s.frames.filter fun f => f.2 < s.world.todo.length

def called : Ev → List (Completion × Nat)
  | .exec _ =>
    match s.world.todo with
    | [] => []
    | op :: rest => (op.completion.map fun c => (c, rest.length)).toList
  | _ => []

def step (s : CallStack) (e : Ev) : Option CallStack :=
  (s.world.step e).map fun w => { world := w, frames := s.called e ++ s.active }

def depth (c : Completion) : Nat := s.frames.countP fun f => f.1 = c

/-- An operation started by a completion of its kind does not complete before it returns. -/
def yields (e : Ev) : Bool :=
  match e, s.world.todo with
  | .exec a, .receiveAsync :: _ => a.received.isNone || s.active.all fun f => f.1 ≠ .receive
  | .exec a, .sendAsync _ :: _ => a.sent.isNone || s.active.all fun f => f.1 ≠ .send
  | _, _ => true

end

/-! ## Constant depth -/

structure Shallow (s : CallStack) : Prop where
  inv : World.Inv s.world
  active : ∀ c, s.active.countP (fun f => f.1 = c) ≤ 1
  -- a completion that is about to be called finds none of its kind, unless it is cancelled
  top : ∀ op c, s.world.todo.head? = some op → op.completion = some c → op.closing = false →
    ∀ f ∈ s.active, f.1 ≠ c
  depth : ∀ c, s.depth c ≤ 2

section
variable {s s' : CallStack} {op : Op} {rest : List Op} {a : Answer} {c : Completion}

theorem completion_of_deferred (hd : op.deferred = true) (hc : op.completion = some c) : op.closing = true := by
  unfold Op.deferred at hd
  split at hd <;> first | rfl | cases hc | cases hd

variable {w : World}

theorem exec_closed (hw : w.tunnel.closed = true) (hc : op.completion = some c) : (w.exec a op).todo = w.todo := by
  unfold Op.completion at hc
  split at hc
  · simp [exec, receiveComplete, hw, receiveArrived]
  · simp [exec, sendComplete, hw, sendArrived]
  · cases hc

theorem exec_top (hd : ∀ o ∈ w.todo, o.deferred = true) {o : Op}
    (ho : (w.exec a op).todo.head? = some o) (hc : o.completion = some c) (hcl : o.closing = false) :
    (op = .receiveAsync ∧ a.received.isSome ∧ c = .receive) ∨
      ((∃ b, op = .sendAsync b) ∧ a.sent.isSome ∧ c = .send) := by
  obtain ⟨ops, hp, ht⟩ := exec_pushes w a op
  -- what waited below, or was cancelled, is a completion only in a closed tunnel
  have hbelow : w.todo.head? ≠ some o := by
    intro hm
    cases hcl.symm.trans (completion_of_deferred (hd o (mem_of_head? hm)) hc)
  rw [ht] at ho
  cases hp with
  | nothing => exact absurd ho hbelow
  | received d =>
    cases ho
    refine .inl ⟨rfl, ?_, (Option.some.inj hc).symm⟩
    cases hr : a.received with
    | some => rfl
    | none =>
      rw [exec, receiveAsync, hr] at ht
      exact absurd (congrArg length ht) (by simp [record])
  | sentInline b ok =>
    obtain rfl : Op.sendComplete (.ofBool ok) = o := Option.some.inj ho
    refine .inr ⟨⟨b, rfl⟩, ?_, (Option.some.inj hc).symm⟩
    cases hr : a.sent with
    | some => rfl
    | none =>
      rw [exec, sendAsync, hr] at ht
      exact absurd (congrArg length ht) (by simp [record])
  | cancelled k =>
    have hk : ∀ x ∈ cancelled k, x.closing = true := by
      unfold cancelled
      intro x hx
      simp only [mem_append, mem_ite_nil_right, mem_singleton] at hx
      rcases hx with (⟨-, rfl⟩ | ⟨-, rfl⟩) | ⟨-, rfl⟩ <;> rfl
    cases hcs : cancelled k with
    | nil =>
      rw [hcs] at ho
      exact absurd ho hbelow
    | cons x xs =>
      rw [hcs] at ho
      obtain rfl : x = o := Option.some.inj ho
      cases hcl.symm.trans (hk x (by rw [hcs]; exact mem_cons_self))
  | _ =>
    cases ho
    cases hc

def next (s : CallStack) (op : Op) (rest : List Op) (a : Answer) : CallStack where
  world := (s.world.pop rest).exec a op
  frames := (op.completion.map fun c => (c, rest.length)).toList ++ s.active

theorem step_exec (ht : s.world.todo = op :: rest) (a : Answer) : s.step (.exec a) = some (s.next op rest a) := by
  simp only [step, called, World.step, ht]
  rfl

theorem countP_active_le (s : CallStack) (c : Completion) : s.active.countP (fun f => f.1 = c) ≤ s.depth c :=
  filter_sublist.countP_le

theorem depth_next (op : Op) (rest : List Op) (a : Answer) (c : Completion) : (s.next op rest a).depth c =
    (if op.completion = some c then 1 else 0) + s.active.countP fun f => f.1 = c := by
  unfold depth next
  rw [countP_append]
  congr 1
  cases op.completion with
  | none => rfl
  | some d => by_cases hd : d = c <;> simp [hd]

theorem active_next_of_none (hn : op.completion = none) : (s.next op rest a).active.Sublist s.active := by
  unfold active next
  simp only [hn, Option.map_none, Option.toList_none, nil_append]
  exact filter_sublist

theorem active_next_of_closed (hw : s.world.tunnel.closed = true) (hc : op.completion = some c) :
    (s.next op rest a).active.Sublist s.active := by
  have ht : ((s.world.pop rest).exec a op).todo = rest := exec_closed hw hc
  unfold active next
  rw [ht, hc]
  simp only [Option.map_some, Option.toList_some, singleton_append, Nat.lt_irrefl, decide_false, Bool.false_eq_true,
    not_false_eq_true, filter_cons_of_neg]
  exact filter_sublist

theorem Shallow.next (h : Shallow s) (ht : s.world.todo = op :: rest) (hy : s.yields (.exec a) = true) :
    Shallow (s.next op rest a) := by
  have hbelow : ∀ o ∈ rest, o.deferred = true := fun o ho => h.inv.below o (by rw [ht]; exact ho)
  refine ⟨exec_inv h.inv ht a, fun c => ?_, fun o c ho hc hcl => ?_, fun c => ?_⟩
  · by_cases hop : op.completion = some c
    · cases hcl : op.closing with
      | true =>
        have hclosed : s.world.tunnel.closed = true := h.inv.closing (by rw [ht, Stack.has_cons, hcl, Bool.true_or])
        exact Nat.le_trans (active_next_of_closed hclosed hop).countP_le (h.active c)
      | false =>
        have hnone : s.active.countP (fun f => f.1 = c) = 0 := by
          refine countP_eq_zero.2 fun f hf => ?_
          simpa using h.top op c (by rw [ht]; rfl) hop hcl f hf
        refine Nat.le_trans (countP_active_le _ c) (Nat.le_of_eq ?_)
        rw [depth_next, if_pos hop, hnone]
    · refine Nat.le_trans (countP_active_le _ c) ?_
      rw [depth_next, if_neg hop, Nat.zero_add]
      exact h.active c
  · have hnone : op.completion = none ∧ ∀ f ∈ s.active, f.1 ≠ c := by
      rcases exec_top hbelow ho hc hcl with ⟨rfl, hr, rfl⟩ | ⟨⟨b, rfl⟩, hr, rfl⟩
      · refine ⟨rfl, ?_⟩
        simpa [yields, ht, Option.isNone_iff_eq_none, Option.isSome_iff_ne_none.1 hr] using hy
      · refine ⟨rfl, ?_⟩
        simpa [yields, ht, Option.isNone_iff_eq_none, Option.isSome_iff_ne_none.1 hr] using hy
    exact fun f hf => hnone.2 f ((active_next_of_none hnone.1).subset hf)
  · rw [depth_next]
    have := h.active c
    split <;> omega

theorem Shallow.idle (h : Shallow s) (hw : World.Inv w) (ht : w.todo = s.world.todo) :
    Shallow { world := w, frames := s.active } := by
  have ha : CallStack.active { world := w, frames := s.active } = s.active := by
    simp only [CallStack.active, ht, filter_filter, Bool.and_self]
  refine ⟨hw, fun c => ?_, fun op c ho hc hcl => ?_, fun c => ?_⟩
  · rw [ha]
    exact h.active c
  · rw [ha]
    exact h.top op c (ht ▸ ho) hc hcl
  · exact Nat.le_succ_of_le (h.active c)

theorem active_of_empty (ht : s.world.todo = []) : s.active = [] := by
  simp [active, ht]

theorem shallow_of_no_frames (hw : World.Inv w) : Shallow { world := w } :=
  ⟨hw, fun _ => Nat.zero_le _, fun _ _ _ _ _ _ hf => absurd hf not_mem_nil, fun _ => Nat.zero_le _⟩

theorem Shallow.step {e : Ev} (h : Shallow s) (hy : s.yields e = true) (hs : s.step e = some s') : Shallow s' := by
  obtain ⟨w, hw, rfl⟩ := Option.map_eq_some_iff.1 hs
  have hinv := step_inv h.inv hw
  cases e with
  | exec a =>
    cases ht : s.world.todo with
    | nil =>
      simp only [World.step, ht] at hw
      cases hw
    | cons op rest =>
      have hn := (step_exec ht a).symm.trans hs
      rw [← Option.some.inj hn]
      exact h.next ht hy
  | tick d =>
    cases hw
    exact h.idle hinv rfl
  | siblings k =>
    obtain ⟨-, ⟨⟩⟩ := Option.ite_none_right_eq_some.1 hw
    exact h.idle hinv rfl
  | _ =>
    simp only [World.step, Option.ite_none_right_eq_some] at hw
    rw [active_of_empty hw.1]
    exact shallow_of_no_frames hinv

/-- Neither completion nests more than twice, whatever there is to pump. -/
theorem nesting_bounded {client : Bool} {seed : Bytes} {stream : QuictunStream} {me : Nat} {k : QuictunIdleTracker Nat}
    {now : Time} {es : List Ev} {s : CallStack}
    (hr : Lts.run step { world := World.init client seed stream me k now } es = some s)
    (hy : Lts.AllSteps step (fun s e => s.yields e = true) { world := World.init client seed stream me k now } es) :
    s.depth .receive ≤ 2 ∧ s.depth .send ≤ 2 := by
  have h : Shallow s := Lts.run_inv_of (fun _ _ _ => Shallow.step) (shallow_of_no_frames (init_inv ..)) hy hr
  exact ⟨h.depth .receive, h.depth .send⟩

def starts : List Ev := .start [] :: replicate 8 (.exec {})

def oneByteEachWay : List Ev :=
  starts ++ .streamFrame [1] false :: replicate 8 (.exec {}) ++
    .exec { sent := some true } :: replicate 7 (.exec {}) ++
    [.receiveDone (some [2]), .exec {}, .exec { taken := 1 }, .exec {}, .exec {}, .exec {}, .exec {}]

theorem nesting_bounded_oneByteEachWay :
    ∃ s, Lts.run step { world := World.init true [] {} 0 {} 0 } oneByteEachWay = some s ∧ s.world.todo = [] ∧
      s.depth .receive ≤ 2 ∧ s.depth .send ≤ 2 :=
  ⟨_, rfl, rfl, @nesting_bounded true [] {} 0 {} 0 oneByteEachWay _ rfl (Lts.allSteps_of_check (by decide +kernel))⟩

end

/-! ## Unbounded depth -/

section
variable {s : CallStack} {w : World} {op : Op} {rest : List Op} {a : Answer} {c : Completion} {P : CallStack → Prop}
  {es : List Ev}

def nested (s : CallStack) (c : Completion) (m : Nat) : Nat := s.frames.countP fun f => f.1 = c ∧ f.2 ≤ m

theorem nested_le_depth (s : CallStack) (c : Completion) (m : Nat) : s.nested c m ≤ s.depth c :=
  countP_mono_left fun f _ hf => by
    simp only [decide_eq_true_eq] at hf ⊢
    exact hf.1

theorem nested_mono {m n : Nat} (hmn : m ≤ n) : s.nested c m ≤ s.nested c n :=
  countP_mono_left fun f _ hf => by
    simp only [decide_eq_true_eq] at hf ⊢
    exact ⟨hf.1, Nat.le_trans hf.2 hmn⟩

variable {m : Nat}

theorem nested_next (ht : s.world.todo = op :: rest) (hm : m ≤ rest.length) (c : Completion) :
    (s.next op rest a).nested c m =
      (if op.completion = some c ∧ rest.length ≤ m then 1 else 0) + s.nested c m := by
  unfold nested next active
  rw [countP_append, countP_filter, ht]
  congr 1
  · cases op.completion with
    | none => rfl
    | some d => by_cases hd : d = c <;> simp [hd, countP_cons]
  · refine countP_congr fun f _ => ?_
    simp only [length_cons, Bool.and_eq_true, decide_eq_true_eq, and_iff_left_iff_imp]
    exact fun hf => Nat.lt_succ_of_le (Nat.le_trans hf.2 hm)

theorem nested_next_of_none (ht : s.world.todo = op :: rest) (hn : op.completion = none)
    (hm : m ≤ rest.length) : (s.next op rest a).nested c m = s.nested c m := by
  rw [nested_next ht hm, hn, if_neg (fun h => by cases h.1), Nat.zero_add]

def Reach (P : CallStack → Prop) (es : List Ev) (s : CallStack) : Prop := ∃ t, Lts.run step s es = some t ∧ P t

theorem Reach.here (h : P s) : Reach P [] s := ⟨s, rfl, h⟩

variable {t : CallStack}

theorem Reach.step {e : Ev} (hs : s.step e = some t) (h : Reach P es t) : Reach P (e :: es) s := by
  obtain ⟨u, hr, hu⟩ := h
  exact ⟨u, Lts.run_cons.2 ⟨t, hs, hr⟩, hu⟩

theorem Reach.exec (ht : s.world.todo = op :: rest) (h : Reach P es (s.next op rest a)) : Reach P (.exec a :: es) s :=
  Reach.step (step_exec ht a) h

theorem Reach.append {fs : List Ev} (hr : Lts.run CallStack.step s fs = some t) (h : Reach P es t) :
    Reach P (fs ++ es) s := by
  obtain ⟨u, hu, hP⟩ := h
  exact ⟨u, Lts.run_append.2 ⟨t, hr, hu⟩, hP⟩

/-- The blocks `todo` are to run, `k` completions have been called with at most `m` blocks below
them, and the rest of the state meets `Q`. -/
structure At (Q : World → Prop) (c : Completion) (todo : List Op) (k m : Nat) (s : CallStack) : Prop where
  holds : Q s.world
  todo : s.world.todo = todo
  nested : k ≤ s.nested c m

section
variable {Q Q' : World → Prop} {k m : Nat} {todo : List Op} {w' : World}

theorem At.deeper (h : At Q c todo k m s) {n : Nat} (hmn : m ≤ n) : At Q c todo k n s :=
  { h with nested := Nat.le_trans h.nested (nested_mono hmn) }

theorem At.exec (h : At Q c (op :: rest) k m s) (hm : m ≤ rest.length) (hn : op.completion = none)
    (he : (s.world.pop rest).exec a op = w') (hQ : Q' w') (ht : w'.todo = todo)
    (hP : ∀ t, At Q' c todo k m t → Reach P es t) : Reach P (.exec a :: es) s := by
  subst he
  refine .exec h.todo (hP _ ⟨hQ, ht, ?_⟩)
  rw [nested_next_of_none h.todo hn hm]
  exact h.nested

theorem At.call (h : At Q c (op :: rest) k rest.length s) (hc : op.completion = some c)
    (he : (s.world.pop rest).exec a op = w') (hQ : Q' w') (ht : w'.todo = todo)
    (hP : ∀ t, At Q' c todo (k + 1) rest.length t → Reach P es t) : Reach P (.exec a :: es) s := by
  subst he
  refine .exec h.todo (hP _ ⟨hQ, ht, ?_⟩)
  rw [nested_next h.todo (Nat.le_refl _), if_pos ⟨hc, Nat.le_refl _⟩, Nat.add_comm]
  exact Nat.add_le_add_left h.nested 1

end

structure Flows (receiving : Bool) (w : World) : Prop where
  isOpen : w.tunnel.closed = false
  socket : w.tunnel.hasSocket = true
  notDone : w.tunnel.tcpReceiveDone = false
  receiving : w.tunnel.tcpReceiveInFlight = receiving
  drained : w.stream.buffered = 0
  notFinished : w.stream.finBuffered = false
  writable : w.stream.writeSideClosed = false

variable {slice : Bytes}

theorem receiveComplete_slice (ho : w.tunnel.closed = false) (hs : slice ≠ []) :
    w.receiveComplete (.slice slice) = (w.receiveArrived (.slice slice)).noteActivity.push
      [.writeToStream slice false, .receiveAfterWrite] := by
  cases slice with
  | nil => exact absurd rfl hs
  | cons b bs => simp only [receiveComplete, ho, Bool.false_eq_true, if_false]

section
variable {receiving : Bool} (h : Flows receiving w)
include h

theorem Flows.writeToStream {slice : Bytes} (hs : slice ≠ []) :
    w.writeToStream { taken := slice.length } slice false = { w.record (.writeToStream slice false) with
      stream := { w.stream with outstanding := w.stream.outstanding + slice.length } } := by
  have he : slice.isEmpty = false := isEmpty_eq_false_iff.2 hs
  have hw : w.stream.writeToStream slice false slice.length false =
      ({ w.stream with outstanding := w.stream.outstanding + slice.length }, false) := by
    obtain ⟨-, -, -, -, hb, hf, hw⟩ := h
    simp [QuictunStream.writeToStream, QuictunStream.writeBufferedData, QuictunStream.hasBufferedData, he, hb, hf, hw]
  unfold World.writeToStream
  rw [hw]
  simp [afterCall, record, push]

theorem Flows.receiveAfterWrite : w.receiveAfterWrite = w.push [.beginReadFromTcp, .receiveEnd] := by
  simp [World.receiveAfterWrite, QuictunStream.hasBufferedData, h.drained]

end

theorem Flows.beginReadFromTcp (h : Flows false w) : w.beginReadFromTcp = w.receiveBegun.push [.receiveAsync] := by
  simp [World.beginReadFromTcp, h.isOpen, h.socket, h.notDone, h.receiving]

def reads (slice : Bytes) : Nat → List Ev
  | 0 => []
  | n + 1 =>
    [.exec {}, .exec { taken := slice.length }, .exec {}, .exec {}, .exec { received := some (some slice) }] ++
      reads slice n

theorem reads_nest {slice : Bytes} (hs : slice ≠ []) : ∀ (n : Nat) {k : Nat} {s : CallStack} {rest : List Op},
    At (Flows true) .receive (.receiveComplete (.slice slice) :: rest) k rest.length s →
    Reach (fun t => k + n ≤ t.depth .receive) (reads slice n) s
  | 0, _, s, rest, h => .here (Nat.le_trans h.nested (nested_le_depth s .receive rest.length))
  | n + 1, k, s, rest, h => by
    have hm := Nat.le_succ rest.length
    have hw : Flows true (s.world.pop rest) := { h.holds with }
    refine h.call rfl (receiveComplete_slice hw.isOpen hs) { hw with receiving := rfl } rfl
      fun s₁ (h1 : At (Flows false) _ (.writeToStream slice false :: .receiveAfterWrite :: rest) _ _ _) => ?_
    have hw1 : Flows false (s₁.world.pop (.receiveAfterWrite :: rest)) := { h1.holds with }
    refine h1.exec hm rfl (hw1.writeToStream hs) { hw1 with } rfl
      fun s₂ (h2 : At (Flows false) _ (.receiveAfterWrite :: rest) _ _ _) => ?_
    have hw2 : Flows false (s₂.world.pop rest) := { h2.holds with }
    refine h2.exec (Nat.le_refl _) rfl hw2.receiveAfterWrite { hw2 with } rfl
      fun s₃ (h3 : At (Flows false) _ (.beginReadFromTcp :: .receiveEnd :: rest) _ _ _) => ?_
    have hw3 : Flows false (s₃.world.pop (.receiveEnd :: rest)) := { h3.holds with }
    refine h3.exec hm rfl hw3.beginReadFromTcp { hw3 with receiving := rfl } rfl
      fun s₄ (h4 : At (Flows true) _ (.receiveAsync :: .receiveEnd :: rest) _ _ _) => ?_
    -- the next slice comes in before `ReceiveAsync()` has returned
    refine h4.exec hm rfl rfl { h4.holds with } rfl
      fun s₅ (h5 : At (Flows true) _ (.receiveComplete (.slice slice) :: .receiveEnd :: rest) _ _ _) => ?_
    rw [Nat.add_comm n 1, ← Nat.add_assoc]
    exact reads_nest hs n (h5.deeper hm)

/-- Nothing keeps the bytes of the stream from the TCP socket: `queued` chunks wait, and the
stream has `left` more of them. -/
structure Drains (sending : Bool) (queued left : Nat) (w : World) : Prop where
  isOpen : w.tunnel.closed = false
  socket : w.tunnel.hasSocket = true
  sending : w.tunnel.tcpSendInFlight = sending
  queued : w.tunnel.pendingToTcp.length = queued
  left : w.stream.readable.length = left * kReadSize
  notFinished : w.stream.fin = false

section
variable {sending : Bool} {queued left : Nat}

theorem Drains.fillQueueFromStream (h : Drains sending queued left w) (hq : queued < kMaxQueuedChunks) :
    w.fillQueueFromStream = w.push [.read] := by
  rw [World.fillQueueFromStream, if_pos (h.queued ▸ hq)]

theorem Drains.fillQueueFromStream_full (h : Drains sending kMaxQueuedChunks left w) :
    w.fillQueueFromStream = w.updateIdleClass := by
  rw [World.fillQueueFromStream, if_neg (h.queued ▸ Nat.lt_irrefl _)]

theorem Drains.read (h : Drains sending queued (left + 1) w) : ∃ data, data.isEmpty = false ∧
    Drains sending queued left (w.read {}) ∧ (w.read {}).todo = .fillAfterRead data false :: w.todo := by
  have hs : w.stream.read kReadSize = (w.stream.readable.take kReadSize, false,
      { w.stream with readable := w.stream.readable.drop kReadSize }, false) := by
    simp [QuictunStream.read, h.notFinished]
  have hl : (w.stream.readable.drop kReadSize).length = left * kReadSize := by
    rw [length_drop, h.left, Nat.succ_mul, Nat.add_sub_cancel]
  refine ⟨w.stream.readable.take kReadSize, ?_, ?_⟩
  · rw [← Bool.not_eq_true, isEmpty_iff_length_eq_zero, length_take, h.left,
      Nat.min_eq_left (Nat.le_mul_of_pos_left _ (Nat.succ_pos _))]
    decide
  · unfold World.read
    rw [hs]
    exact ⟨{ h with left := hl }, rfl⟩

theorem Drains.fillAfterRead {data : Bytes} (h : Drains sending queued left w) (hd : data.isEmpty = false) :
    Drains sending (queued + 1) left (w.fillAfterRead data false) ∧
      (w.fillAfterRead data false).todo = .fillQueueFromStream :: w.todo := by
  have hl : (w.tunnel.pendingToTcp ++ [data]).length = queued + 1 := by
    rw [length_append, h.queued]
    rfl
  simp only [World.fillAfterRead, World.enqueue, hd, Bool.false_eq_true, if_false]
  exact ⟨{ h with queued := hl }, rfl⟩

theorem Drains.maybeFlushQuicToTcp (h : Drains false (queued + 1) left w) : ∃ chunk,
    Drains true queued left w.maybeFlushQuicToTcp ∧
      w.maybeFlushQuicToTcp.todo = .sendAsync chunk :: .flushEnd :: w.todo := by
  obtain ⟨chunk, tail, hp⟩ := exists_cons_of_length_eq_add_one h.queued
  have he : w.maybeFlushQuicToTcp = (w.dequeued tail).push [.sendAsync chunk, .flushEnd] := by
    simp [World.maybeFlushQuicToTcp, h.isOpen, h.socket, h.sending, hp]
  have hl : tail.length = queued := by
    have hq := h.queued
    rw [hp, length_cons] at hq
    exact Nat.succ.inj hq
  rw [he]
  exact ⟨chunk, { h with sending := rfl, queued := hl }, rfl⟩

theorem sendComplete_ok (ho : w.tunnel.closed = false) :
    w.sendComplete .ok = w.sendArrived.push [.fillQueueFromStream, .maybeFlushQuicToTcp] := by
  simp [sendComplete, ho]

end

def fills : Nat → List Ev → List Ev
  | 0, es => .exec {} :: es
  | j + 1, es => .exec {} :: .exec {} :: .exec {} :: fills j es

theorem fills_queue {sending : Bool} {k m : Nat} (hm : m ≤ rest.length) :
    ∀ (j : Nat) {queued left : Nat} {s : CallStack}, queued + j = kMaxQueuedChunks →
      At (Drains sending queued (left + j)) c (.fillQueueFromStream :: rest) k m s →
      (∀ t, At (Drains sending kMaxQueuedChunks left) c rest k m t → Reach P es t) → Reach P (fills j es) s
  | 0, queued, left, s, hj, h, hP => by
    subst hj
    have hw : Drains sending kMaxQueuedChunks left (s.world.pop rest) := { h.holds with }
    exact h.exec hm rfl hw.fillQueueFromStream_full { hw with } rfl hP
  | j + 1, queued, left, s, hj, h, hP => by
    have hw : Drains sending queued (left + j + 1) (s.world.pop rest) := { h.holds with }
    have hq : queued < kMaxQueuedChunks := by omega
    refine h.exec hm rfl (hw.fillQueueFromStream hq) { hw with } rfl
      fun s₁ (h1 : At (Drains sending queued (left + j + 1)) _ (.read :: rest) _ _ _) => ?_
    have hw1 : Drains sending queued (left + j + 1) (s₁.world.pop rest) := { h1.holds with }
    obtain ⟨data, hd, hr, ht⟩ := hw1.read
    refine h1.exec hm rfl rfl hr ht fun s₂ h2 => ?_
    have hw2 : Drains sending queued (left + j) (s₂.world.pop rest) := { h2.holds with }
    obtain ⟨hf, ht2⟩ := hw2.fillAfterRead hd
    exact h2.exec hm rfl rfl hf ht2 fun s₃ h3 => fills_queue hm j (by omega) h3 hP

def sends : Nat → List Ev
  | 0 => []
  | n + 1 => .exec {} :: .exec { sent := some true } :: .exec {} :: fills 1 (sends n)

theorem sends_nest : ∀ (n : Nat) {k : Nat} {s : CallStack} {rest : List Op},
    At (Drains false kMaxQueuedChunks n) .send (.maybeFlushQuicToTcp :: rest) k rest.length s →
    Reach (fun t => k + n ≤ t.depth .send) (sends n) s
  | 0, _, s, rest, h => .here (Nat.le_trans h.nested (nested_le_depth s .send rest.length))
  | n + 1, k, s, rest, h => by
    have hm := Nat.le_succ rest.length
    have hw : Drains false kMaxQueuedChunks (n + 1) (s.world.pop rest) := { h.holds with }
    obtain ⟨chunk, hf, ht⟩ := hw.maybeFlushQuicToTcp
    refine h.exec (Nat.le_refl _) rfl rfl hf ht fun s₁ h1 => ?_
    refine h1.exec hm rfl rfl { h1.holds with } rfl
      fun s₂ (h2 : At (Drains true 3 (n + 1)) _ (.sendComplete .ok :: .flushEnd :: rest) _ _ _) => ?_
    -- the chunk is out before `SendAsync()` has returned
    have hw2 : Drains true 3 (n + 1) (s₂.world.pop (.flushEnd :: rest)) := { h2.holds with }
    refine (h2.deeper hm).call rfl (sendComplete_ok hw2.isOpen) { hw2 with sending := rfl } rfl
      fun s₃ (h3 : At (Drains false 3 (n + 1)) _
        (.fillQueueFromStream :: .maybeFlushQuicToTcp :: .flushEnd :: rest) _ _ _) => ?_
    refine fills_queue (Nat.le_succ _) 1 rfl h3 fun s₄ h4 => ?_
    rw [Nat.add_comm n 1, ← Nat.add_assoc]
    exact sends_nest n h4

theorem Flows.receiveDone (h : Flows true s.world) (ht : s.world.todo = []) (hr : s.world.socket.receiving = true)
    (slice : Bytes) : ∃ t, s.step (.receiveDone (some slice)) = some t ∧
      At (Flows true) .receive [.receiveComplete (.slice slice)] 0 0 t := by
  simp only [step, World.step, World.deliver, ht, hr, if_true, Option.map_some]
  exact ⟨_, rfl, { h with }, rfl, Nat.zero_le _⟩

theorem Drains.streamFrame {left : Nat} (h : Drains false 0 0 s.world) (ht : s.world.todo = [])
    (hc : s.world.stream.readSideClosed = false) (hs : s.world.stream.readingStopped = false) {bs : Bytes}
    (hb : bs ≠ []) (hl : bs.length = left * kReadSize) : ∃ t, s.step (.streamFrame bs false) = some t ∧
      At (Drains false 0 left) .send [.onStreamDataAvailable] 0 0 t ∧ t.world.tunnel = s.world.tunnel := by
  have he : bs.isEmpty = false := isEmpty_eq_false_iff.2 hb
  have hr : (s.world.stream.readable ++ bs).length = left * kReadSize := by
    rw [length_append, h.left, hl, Nat.zero_mul, Nat.zero_add]
  simp only [step, World.step, World.deliver, World.notified, QuictunStream.onStreamFrame, ht, h.notFinished, hc,
    hs, he, Bool.or_false, Bool.false_and, Bool.false_eq_true, if_true, if_false, Option.map_some]
  exact ⟨_, rfl, ⟨{ h with left := hr, notFinished := rfl }, rfl, Nat.zero_le _⟩, rfl⟩

theorem onStreamDataAvailable_started (ho : w.tunnel.closed = false) (hs : w.tunnel.started = true) :
    w.onStreamDataAvailable = w.push [.fillQueueFromStream, .maybeFlushQuicToTcp] := by
  simp [onStreamDataAvailable, ho, hs]

def waiting : CallStack := (Lts.run step { world := init true [] {} 0 {} 0 } starts).get (by decide)

theorem run_starts : Lts.run step { world := init true [] {} 0 {} 0 } starts = some waiting :=
  (Option.some_get _).symm

theorem waiting_flows : Flows true waiting.world := by
  constructor <;> decide

theorem waiting_drains : Drains false 0 0 waiting.world := by
  constructor <;> decide

theorem waiting_reads (hs : slice ≠ []) (n : Nat) :
    Reach (fun t => n ≤ t.depth .receive) (.receiveDone (some slice) :: reads slice n) waiting := by
  obtain ⟨t, ht, h⟩ := waiting_flows.receiveDone (by decide) (by decide) slice
  have hr := reads_nest hs n h
  rw [Nat.zero_add] at hr
  exact Reach.step ht hr

theorem waiting_sends (n : Nat) {bs : Bytes} (hl : bs.length = (n + kMaxQueuedChunks) * kReadSize) :
    Reach (fun t => n ≤ t.depth .send) (.streamFrame bs false :: .exec {} :: fills kMaxQueuedChunks (sends n))
      waiting := by
  have hb : bs ≠ [] := by
    rw [← length_pos_iff, hl]
    exact Nat.mul_pos (Nat.add_pos_right n (by decide)) (by decide)
  obtain ⟨t, ht, h, htun⟩ := waiting_drains.streamFrame (by decide) (by decide) (by decide) hb hl
  refine Reach.step ht ?_
  have hst : t.world.tunnel.started = true := by
    rw [htun]
    decide
  refine h.exec (Nat.le_refl _) rfl (onStreamDataAvailable_started h.holds.isOpen hst) { h.holds with } rfl
    fun t₁ (h1 : At (Drains false 0 (n + kMaxQueuedChunks)) _ [.fillQueueFromStream, .maybeFlushQuicToTcp] _ _ _) => ?_
  refine fills_queue (Nat.zero_le _) kMaxQueuedChunks rfl h1 fun t₂ h2 => ?_
  have hr := sends_nest n h2
  rwa [Nat.zero_add] at hr

/-- With enough bytes in the kernel, or in the stream, both completions nest beyond any bound. -/
theorem nesting_unbounded : (∀ bound, ∃ s, Lts.run step { world := World.init true [] {} 0 {} 0 } (starts ++
        .receiveDone (some (List.replicate kReadSize 0)) :: reads (List.replicate kReadSize 0) (bound + 1)) = some s ∧
      bound < s.depth .receive) ∧
    ∀ bound, ∃ s, Lts.run step { world := World.init true [] {} 0 {} 0 } (starts ++
        .streamFrame (List.replicate ((bound + 1 + kMaxQueuedChunks) * kReadSize) 0) false ::
          .exec {} :: fills kMaxQueuedChunks (sends (bound + 1))) = some s ∧
      bound < s.depth .send := by
  have hs : replicate kReadSize (0 : UInt8) ≠ [] := fun h => by cases (replicate_eq_nil_iff _).1 h
  exact ⟨fun bound => Reach.append run_starts (waiting_reads hs (bound + 1)),
    fun bound => Reach.append run_starts (waiting_sends (bound + 1) length_replicate)⟩

end

end CallStack

end Quictun
