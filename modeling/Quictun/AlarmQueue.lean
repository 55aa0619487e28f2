import Mathlib.Data.List.Nodup
import Mathlib.Data.List.Sort
import Mathlib.Data.List.TakeWhile
import Mathlib.Logic.Function.Basic

/-!
# The alarm queue

`QuicQueueAlarmFactory` keeps the alarms that are set in a queue ordered by deadline. An entry refers
to the alarm through a handle, which the alarm gives up when it is cancelled, set again or destroyed;
the entry stays, and refers to nothing. A pass takes the entries that are due out of the queue before
it calls any of them, and the callbacks may do with all alarms what they like.

The abstract pass (`expected`) knows nothing of handles: it calls the alarms that were set when it
began, in the order of their deadlines, but for those that an earlier callback has withdrawn.
-/

namespace Quictun

open List Function Bool

/-- A deadline of 0 is one that is not set. -/
structure QuicAlarm where
  deadline : Int := 0
  delegate : Bool := true
  currentScheduleHandle : Option Nat := none

structure AlarmEntry where
  deadline : Int
  scheduleHandle : Nat
  alarm : Nat
deriving DecidableEq

structure QuicQueueAlarmFactory where
  objects : Nat → Option QuicAlarm := fun _ => none
  alarms : List AlarmEntry := []
  nextHandle : Nat := 0

namespace QuicQueueAlarmFactory

variable (s : QuicQueueAlarmFactory)

def put (alarm : Nat) (a : Option QuicAlarm) : QuicQueueAlarmFactory :=
  { s with objects := Function.update s.objects alarm a }

/-- With the deadline the alarm has already. Among equal deadlines the new one is the last. -/
def setImpl (alarm : Nat) (a : QuicAlarm) : QuicQueueAlarmFactory where
  objects := Function.update s.objects alarm (some { a with currentScheduleHandle := some s.nextHandle })
  alarms := s.alarms.orderedInsert (fun x y => x.deadline < y.deadline) ⟨a.deadline, s.nextHandle, alarm⟩
  nextHandle := s.nextHandle + 1

def cancelInternal (alarm : Nat) (a : QuicAlarm) (permanent : Bool) : QuicQueueAlarmFactory :=
  let a := if a.deadline = 0 then a else { a with deadline := 0, currentScheduleHandle := none }
  s.put alarm (some (if permanent then { a with delegate := false } else a))

inductive Op where
  | create (alarm : Nat)
  | set (alarm : Nat) (newDeadline : Int)
  | update (alarm : Nat) (newDeadline granularity : Int)
  | cancel (alarm : Nat) (permanent : Bool)
  | destroy (alarm : Nat)

def Op.alarm : Op → Nat
  | .create alarm => alarm
  | .set alarm _ => alarm
  | .update alarm _ _ => alarm
  | .cancel alarm _ => alarm
  | .destroy alarm => alarm

/-- Calls on an alarm that does not exist are not made. `UpdateImpl()` gives the handle up before it takes
a new one, which is what `SetImpl()` does in any case. -/
def apply : Op → QuicQueueAlarmFactory
  | .create alarm => if (s.objects alarm).isSome then s else s.put alarm (some {})
  | .set alarm newDeadline =>
    match s.objects alarm with
    | none => s
    | some a => if a.delegate then s.setImpl alarm { a with deadline := newDeadline } else s
  | .update alarm newDeadline granularity =>
    match s.objects alarm with
    | none => s
    | some a =>
      if !a.delegate then s
      else if newDeadline = 0 then s.cancelInternal alarm a false
      else if (newDeadline - a.deadline).natAbs < granularity then s
      else s.setImpl alarm { a with deadline := newDeadline }
  | .cancel alarm permanent =>
    match s.objects alarm with
    | none => s
    | some a => s.cancelInternal alarm a permanent
  | .destroy alarm => s.put alarm none

def live (e : AlarmEntry) : Bool := (s.objects e.alarm).any fun a => a.currentScheduleHandle = some e.scheduleHandle

def doFire (alarm : Nat) : QuicQueueAlarmFactory × Bool :=
  match s.objects alarm with
  | none => (s, false)
  | some a => (s.put alarm (some { a with currentScheduleHandle := none, deadline := 0 }), a.deadline ≠ 0 && a.delegate)

/-- One round of the loop that calls, for callbacks given by the alarm. -/
def turn (callback : Nat → List Op) (r : QuicQueueAlarmFactory × List (Int × Nat)) (e : AlarmEntry) :
    QuicQueueAlarmFactory × List (Int × Nat) :=
  if r.1.live e then
    let (s, called) := r.1.doFire e.alarm
    if called then ((callback e.alarm).foldl apply s, r.2 ++ [(e.deadline, e.alarm)]) else (s, r.2)
  else r

def alarmsToCall (time : Int) : List AlarmEntry := s.alarms.takeWhile fun e => e.deadline ≤ time

def during (time : Int) (callback : Nat → List Op) (n : Nat) : QuicQueueAlarmFactory × List (Int × Nat) :=
  ((s.alarmsToCall time).take n).foldl (turn callback)
    ({ s with alarms := s.alarms.dropWhile fun e => e.deadline ≤ time }, [])

def processAlarmsUpTo (time : Int) (callback : Nat → List Op) : QuicQueueAlarmFactory × List (Int × Nat) :=
  let r := s.during time callback (s.alarmsToCall time).length
  ({ r.1 with alarms := r.1.alarms.dropWhile fun e => !r.1.live e }, r.2)

def getNextUpcomingAlarm : Option Int := s.alarms.head?.map (·.deadline)

inductive Ev where
  | op (op : Op)
  | processAlarmsUpTo (time : Int) (callback : Nat → List Op)

def step : Ev → QuicQueueAlarmFactory
  | .op op => s.apply op
  | .processAlarmsUpTo time callback => (s.processAlarmsUpTo time callback).1

def reached (es : List Ev) : QuicQueueAlarmFactory := es.foldl step {}

/-! ## The abstract pass -/

def Op.ends (deadline : Int) : Op → Bool
  | .create _ => false
  | .set _ _ => true
  | .update _ newDeadline granularity => newDeadline = 0 || granularity ≤ (newDeadline - deadline).natAbs
  | .cancel _ _ => true
  | .destroy _ => true

def withdraws (x : Int × Nat) (op : Op) : Bool := op.alarm = x.2 && op.ends x.1

/-- Of the alarms that are due, those called after the callbacks have made the calls `ops`. -/
def expected (callback : Nat → List Op) : List (Int × Nat) → List Op → List (Int × Nat)
  | [], _ => []
  | x :: due, ops =>
    if ops.any (withdraws x) then expected callback due ops else x :: expected callback due (ops ++ callback x.2)

/-! ## Handles -/

/-- What holds with the entries `pending` taken out of the queue, to be called. -/
structure Inv (pending : List AlarmEntry) (s : QuicQueueAlarmFactory) : Prop where
  fresh : ∀ e ∈ pending ++ s.alarms, e.scheduleHandle < s.nextHandle
  distinct : (pending ++ s.alarms).Pairwise fun x y => x.scheduleHandle ≠ y.scheduleHandle
  entry : ∀ alarm a handle, s.objects alarm = some a → a.currentScheduleHandle = some handle →
    ⟨a.deadline, handle, alarm⟩ ∈ pending ++ s.alarms
  isSet : ∀ alarm a, s.objects alarm = some a → a.deadline ≠ 0 → a.currentScheduleHandle.isSome ∧ a.delegate = true
  sorted : s.alarms.Pairwise fun x y => x.deadline ≤ y.deadline

variable {s} {pending : List AlarmEntry} {e : AlarmEntry}

@[simp] theorem objects_put (alarm : Nat) (o : Option QuicAlarm) :
    (s.put alarm o).objects = Function.update s.objects alarm o := rfl

@[simp] theorem objects_setImpl (alarm : Nat) (a : QuicAlarm) :
    (s.setImpl alarm a).objects =
      Function.update s.objects alarm (some { a with currentScheduleHandle := some s.nextHandle }) := rfl

theorem live_iff : s.live e = true ↔ ∃ a, s.objects e.alarm = some a ∧
    a.currentScheduleHandle = some e.scheduleHandle := by
  simp [live, Option.any_eq_true]

variable {l : List AlarmEntry}

theorem eq_of_handle (h : l.Pairwise fun x y => x.scheduleHandle ≠ y.scheduleHandle) {x y : AlarmEntry}
    (hx : x ∈ l) (hy : y ∈ l) (he : x.scheduleHandle = y.scheduleHandle) : x = y :=
  inj_on_of_nodup_map (pairwise_map.2 h) hx hy he

variable {a : QuicAlarm}

theorem Inv.agrees (h : Inv pending s) (he : e ∈ pending ++ s.alarms) (ha : s.objects e.alarm = some a)
    (hh : a.currentScheduleHandle = some e.scheduleHandle) : a.deadline = e.deadline :=
  congrArg AlarmEntry.deadline (eq_of_handle h.distinct (h.entry _ _ _ ha hh) he rfl)

theorem sorted_orderedInsert (h : l.Pairwise fun x y => x.deadline ≤ y.deadline) (e : AlarmEntry) :
    (l.orderedInsert (fun x y => x.deadline < y.deadline) e).Pairwise fun x y => x.deadline ≤ y.deadline := by
  induction l with
  | nil => exact pairwise_singleton _ _
  | cons x l ih =>
    obtain ⟨hx, hl⟩ := pairwise_cons.1 h
    rw [orderedInsert_cons]
    split
    next hlt =>
      refine pairwise_cons.2 ⟨fun y hy => ?_, h⟩
      rcases mem_cons.1 hy with rfl | hy
      · exact hlt.le
      · exact hlt.le.trans (hx y hy)
    next hle =>
      refine pairwise_cons.2 ⟨fun y hy => ?_, ih hl⟩
      rcases mem_cons.1 ((perm_orderedInsert _ e l).mem_iff.1 hy) with rfl | hy
      · exact not_lt.1 hle
      · exact hx y hy

section
variable (h : Inv pending s)
include h

theorem Inv.setImpl (alarm : Nat) {a : QuicAlarm} (ha : a.delegate = true) : Inv pending (s.setImpl alarm a) := by
  have hperm : (pending ++ (s.setImpl alarm a).alarms).Perm
    (⟨a.deadline, s.nextHandle, alarm⟩ :: (pending ++ s.alarms)) :=
    ((perm_orderedInsert _ _ s.alarms).append_left pending).trans perm_middle
  have hcons : ∀ {e}, e ∈ pending ++ s.alarms → e ∈ pending ++ (s.setImpl alarm a).alarms :=
    fun he => hperm.mem_iff.2 (mem_cons_of_mem _ he)
  refine ⟨fun e he => ?_, ?_, fun alarm' a' handle ho hh => ?_, fun alarm' a' ho hd => ?_,
    sorted_orderedInsert h.sorted _⟩
  · rcases mem_cons.1 (hperm.mem_iff.1 he) with rfl | he
    · exact Nat.lt_succ_self _
    · exact Nat.lt_succ_of_lt (h.fresh e he)
  · refine hperm.symm.pairwise (pairwise_cons.2 ⟨fun e he => (ne_of_lt (h.fresh e he)).symm, h.distinct⟩) Ne.symm
  · rw [objects_setImpl] at ho
    by_cases heq : alarm' = alarm
    · subst heq
      rw [update_self] at ho
      cases ho
      cases hh
      exact hperm.mem_iff.2 mem_cons_self
    · rw [update_of_ne heq] at ho
      exact hcons (h.entry alarm' a' handle ho hh)
  · rw [objects_setImpl] at ho
    by_cases heq : alarm' = alarm
    · subst heq
      rw [update_self] at ho
      cases ho
      exact ⟨rfl, ha⟩
    · rw [update_of_ne heq] at ho
      exact h.isSet alarm' a' ho hd

theorem Inv.put {alarm : Nat} {o : Option QuicAlarm} (h0 : ∀ a ∈ o, a.deadline = 0)
    (hkept : ∀ a ∈ o, a.currentScheduleHandle = none ∨
      ∃ a', s.objects alarm = some a' ∧ a'.deadline = 0 ∧ a'.currentScheduleHandle = a.currentScheduleHandle) :
    Inv pending (s.put alarm o) := by
  refine ⟨h.fresh, h.distinct, fun alarm' a handle ho hh => ?_, fun alarm' a ho hd => ?_, h.sorted⟩
  · rw [objects_put] at ho
    by_cases heq : alarm' = alarm
    · subst heq
      rw [update_self] at ho
      rcases hkept a ho with hn | ⟨a', ha', hd', hh'⟩
      · rw [hn] at hh
        cases hh
      · have := h.entry alarm' a' handle ha' (hh'.trans hh)
        rwa [hd', ← h0 a ho] at this
    · rw [update_of_ne heq] at ho
      exact h.entry alarm' a handle ho hh
  · rw [objects_put] at ho
    by_cases heq : alarm' = alarm
    · subst heq
      rw [update_self] at ho
      exact absurd (h0 a ho) hd
    · rw [update_of_ne heq] at ho
      exact h.isSet alarm' a ho hd

theorem Inv.cancelInternal {alarm : Nat} {a : QuicAlarm} (ha : s.objects alarm = some a) (permanent : Bool) :
    Inv pending (s.cancelInternal alarm a permanent) := by
  unfold QuicQueueAlarmFactory.cancelInternal
  by_cases hd : a.deadline = 0
  · refine h.put (fun a' ha' => ?_) fun a' ha' => .inr ⟨a, ha, hd, ?_⟩
    · cases ha'
      cases permanent <;> simp [hd]
    · cases ha'
      cases permanent <;> simp [hd]
  · refine h.put (fun a' ha' => ?_) fun a' ha' => .inl ?_
    · cases ha'
      cases permanent <;> simp [hd]
    · cases ha'
      cases permanent <;> simp [hd]

theorem Inv.apply (op : Op) : Inv pending (s.apply op) := by
  cases op with
  | create alarm =>
    dsimp only [QuicQueueAlarmFactory.apply]
    split
    · exact h
    · exact h.put (by simp) (by simp)
  | set alarm newDeadline =>
    dsimp only [QuicQueueAlarmFactory.apply]
    split
    · exact h
    · split
      next hd => exact h.setImpl alarm hd
      · exact h
  | update alarm newDeadline granularity =>
    dsimp only [QuicQueueAlarmFactory.apply]
    split
    · exact h
    next a ha =>
      split
      · exact h
      next hd =>
        split
        · exact h.cancelInternal ha false
        · split
          · exact h
          · exact h.setImpl alarm (by simpa using hd)
  | cancel alarm permanent =>
    dsimp only [QuicQueueAlarmFactory.apply]
    split
    · exact h
    next a ha => exact h.cancelInternal ha permanent
  | destroy alarm => exact h.put (by simp) (by simp)

theorem Inv.foldl (ops : List Op) : Inv pending (ops.foldl QuicQueueAlarmFactory.apply s) := by
  induction ops generalizing s with
  | nil => exact h
  | cons op ops ih => exact ih (h.apply op)

end

theorem Inv.tail (h : Inv (e :: pending) s) (he : s.live e = false) : Inv pending s := by
  refine ⟨fun x hx => h.fresh x (mem_cons_of_mem _ hx), (pairwise_cons.1 h.distinct).2, fun alarm a handle ha hh => ?_,
    h.isSet, h.sorted⟩
  refine mem_of_ne_of_mem (fun heq => ?_) (h.entry alarm a handle ha hh)
  rw [← heq, live_iff.2 ⟨a, ha, hh⟩] at he
  cases he

theorem Inv.fired (h : Inv (e :: pending) s) : Inv pending (s.doFire e.alarm).1 := by
  unfold doFire
  split
  next hn => exact h.tail (by rw [live, hn]; rfl)
  next a ha =>
    refine (h.put (by simp) (by simp)).tail ?_
    rw [live, objects_put, update_self]
    rfl

theorem Inv.turned (h : Inv (e :: pending) s) (callback : Nat → List Op) (called : List (Int × Nat)) :
    Inv pending (turn callback (s, called) e).1 := by
  unfold turn
  split
  · dsimp only
    split
    · exact h.fired.foldl _
    · exact h.fired
  next hl => exact h.tail (eq_false_iff.2 hl)

theorem Inv.turns {now later : List AlarmEntry} (h : Inv (now ++ later) s) (callback : Nat → List Op)
    (called : List (Int × Nat)) :
    Inv later (now.foldl (turn callback) (s, called)).1 := by
  induction now generalizing s called with
  | nil => exact h
  | cons e now ih => exact ih (Inv.turned h callback called) _

theorem Inv.taken (h : Inv [] s) (time : Int) :
    Inv (s.alarmsToCall time) { s with alarms := s.alarms.dropWhile fun e => e.deadline ≤ time } := by
  have hsplit : s.alarmsToCall time ++ s.alarms.dropWhile (fun e => e.deadline ≤ time) = s.alarms :=
    takeWhile_append_dropWhile
  refine ⟨?_, ?_, ?_, h.isSet, h.sorted.sublist (dropWhile_sublist _)⟩
  · rw [hsplit]
    exact h.fresh
  · rw [hsplit]
    exact h.distinct
  · rw [hsplit]
    exact h.entry

theorem Inv.during (h : Inv [] s) (time : Int) (callback : Nat → List Op) (n : Nat) :
    Inv ((s.alarmsToCall time).drop n) (s.during time callback n).1 := by
  refine Inv.turns ?_ callback []
  rw [take_append_drop]
  exact h.taken time

theorem Inv.cleanUp (h : Inv [] s) : Inv [] { s with alarms := s.alarms.dropWhile fun e => !s.live e } := by
  have hsub : List.Sublist (s.alarms.dropWhile fun e => !s.live e) s.alarms := dropWhile_sublist _
  refine ⟨fun e he => h.fresh e (hsub.subset he), h.distinct.sublist hsub, fun alarm a handle ha hh => ?_, h.isSet,
    h.sorted.sublist hsub⟩
  have hm : ⟨a.deadline, handle, alarm⟩ ∈ s.alarms := h.entry alarm a handle ha hh
  rw [← s.alarms.takeWhile_append_dropWhile (p := fun e => !s.live e), mem_append] at hm
  refine hm.resolve_left fun hm => ?_
  have hdead := mem_takeWhile_imp hm
  rw [live_iff.2 ⟨a, ha, hh⟩] at hdead
  cases hdead

theorem Inv.processAlarmsUpTo (h : Inv [] s) (time : Int) (callback : Nat → List Op) :
    Inv [] (s.processAlarmsUpTo time callback).1 := by
  have hd := h.during time callback (s.alarmsToCall time).length
  rw [drop_length] at hd
  exact hd.cleanUp

theorem inv_reached (es : List Ev) : Inv [] (reached es) := by
  have h0 : Inv [] {} :=
    ⟨nofun, List.Pairwise.nil, nofun, nofun, List.Pairwise.nil⟩
  suffices ∀ s, Inv [] s → Inv [] (es.foldl step s) from this {} h0
  induction es with
  | nil => exact fun s h => h
  | cons e es ih =>
    intro s h
    cases e with
    | op op => exact ih _ (h.apply op)
    | processAlarmsUpTo time callback => exact ih _ (h.processAlarmsUpTo time callback)

/-! ## What is called -/

def fires (s : QuicQueueAlarmFactory) (e : AlarmEntry) : Bool :=
  (s.objects e.alarm).any fun a => a.currentScheduleHandle = some e.scheduleHandle && a.deadline ≠ 0

theorem fires_iff : s.fires e = true ↔
    ∃ a, s.objects e.alarm = some a ∧ a.currentScheduleHandle = some e.scheduleHandle ∧ a.deadline ≠ 0 := by
  simp [fires, Option.any_eq_true]

theorem fires_put_self {o : Option QuicAlarm} (h0 : ∀ a ∈ o, a.deadline = 0) : (s.put e.alarm o).fires e = false := by
  rw [fires, objects_put, update_self]
  cases o with
  | none => rfl
  | some a => simp [h0 a rfl]

theorem fires_setImpl_self (h : e.scheduleHandle < s.nextHandle) (a : QuicAlarm) :
    (s.setImpl e.alarm a).fires e = false := by
  rw [fires, objects_setImpl, update_self]
  simp [ne_of_gt h]

theorem fires_congr {s' : QuicQueueAlarmFactory} (h : s'.objects e.alarm = s.objects e.alarm) :
    s'.fires e = s.fires e := by
  rw [fires, fires, h]

theorem fires_cancelInternal (permanent : Bool) : (s.cancelInternal e.alarm a permanent).fires e = false := by
  apply fires_put_self
  intro a' ha'
  cases ha'
  by_cases hd : a.deadline = 0 <;> cases permanent <;> simp [hd]

variable {alarm : Nat}

theorem objects_apply_of_ne {op : Op} (h : alarm ≠ op.alarm) : (s.apply op).objects alarm = s.objects alarm := by
  have hput : ∀ o, (s.put op.alarm o).objects alarm = s.objects alarm := fun o => update_of_ne h _ _
  have hset : ∀ a, (s.setImpl op.alarm a).objects alarm = s.objects alarm := fun a => update_of_ne h _ _
  cases op with
  | create | cancel =>
    dsimp only [apply]
    split
    · rfl
    · exact hput _
  | set =>
    dsimp only [apply]
    split
    · rfl
    · split
      · exact hset _
      · rfl
  | update =>
    dsimp only [apply]
    split
    · rfl
    · split
      · rfl
      · split
        · exact hput _
        · split
          · rfl
          · exact hset _
  | destroy => exact hput _

theorem Inv.fires_apply (h : Inv pending s) (he : e ∈ pending) (op : Op) :
    (s.apply op).fires e = (s.fires e && !withdraws (e.deadline, e.alarm) op) := by
  by_cases hne : e.alarm = op.alarm
  swap
  · rw [fires_congr (objects_apply_of_ne hne), withdraws, decide_eq_false (Ne.symm hne), Bool.false_and, Bool.not_false,
      Bool.and_true]
  rw [withdraws, decide_eq_true hne.symm, Bool.true_and]
  have hmem : e ∈ pending ++ s.alarms := mem_append_left _ he
  have hset : ∀ a, (s.setImpl e.alarm a).fires e = false := fires_setImpl_self (h.fresh e hmem)
  have hnone : s.objects e.alarm = none → s.fires e = false := fun hn => by rw [fires, hn]; rfl
  -- What is known of the alarm if the entry is one to be called.
  have halarm : ∀ a, s.objects e.alarm = some a → s.fires e = true → a.delegate = true ∧ a.deadline = e.deadline := by
    intro a ha hf
    obtain ⟨a', ha', hh, hd⟩ := fires_iff.1 hf
    cases ha.symm.trans ha'
    exact ⟨(h.isSet _ _ ha hd).2, h.agrees hmem ha hh⟩
  cases op with
  | create alarm =>
    obtain rfl : e.alarm = alarm := hne
    dsimp only [QuicQueueAlarmFactory.apply, Op.ends]
    rw [Bool.not_false, Bool.and_true]
    split
    · rfl
    next hn => rw [fires_put_self (by simp), hnone (Option.not_isSome_iff_eq_none.1 hn)]
  | set alarm newDeadline =>
    obtain rfl : e.alarm = alarm := hne
    dsimp only [QuicQueueAlarmFactory.apply, Op.ends]
    rw [Bool.not_true, Bool.and_false]
    split
    next hn => exact hnone hn
    next a ha =>
      split
      · exact hset _
      next hd => exact eq_false_iff.2 fun hf => hd (halarm a ha hf).1
  | update alarm newDeadline granularity =>
    obtain rfl : e.alarm = alarm := hne
    dsimp only [QuicQueueAlarmFactory.apply, Op.ends]
    split
    next hn => rw [hnone hn, Bool.false_and]
    next a ha =>
      split
      next hd =>
        have hf : s.fires e = false := eq_false_iff.2 fun hf => by simp [(halarm a ha hf).1] at hd
        rw [hf, Bool.false_and]
      split
      next h0 => rw [fires_cancelInternal, decide_eq_true h0, Bool.true_or, Bool.not_true, Bool.and_false]
      next h0 =>
        rw [decide_eq_false h0, Bool.false_or]
        cases hf : s.fires e with
        | false =>
          split
          · exact hf
          · exact hset _
        | true =>
          rw [(halarm a ha hf).2, Bool.true_and]
          split
          next hlt => rw [hf, decide_eq_false (Int.not_le.2 hlt), Bool.not_false]
          next hle => rw [hset, decide_eq_true (Int.not_lt.1 hle), Bool.not_true]
  | cancel alarm permanent =>
    obtain rfl : e.alarm = alarm := hne
    dsimp only [QuicQueueAlarmFactory.apply, Op.ends]
    rw [Bool.not_true, Bool.and_false]
    split
    next hn => exact hnone hn
    · exact fires_cancelInternal _
  | destroy alarm =>
    obtain rfl : e.alarm = alarm := hne
    dsimp only [QuicQueueAlarmFactory.apply, Op.ends]
    rw [Bool.not_true, Bool.and_false]
    exact fires_put_self (by simp)

theorem Inv.fires_foldl (h : Inv pending s) (he : e ∈ pending) (ops : List Op) :
    (ops.foldl QuicQueueAlarmFactory.apply s).fires e = (s.fires e && !ops.any (withdraws (e.deadline, e.alarm))) := by
  induction ops generalizing s with
  | nil => rw [foldl_nil, any_nil, Bool.not_false, Bool.and_true]
  | cons op ops ih => rw [foldl_cons, ih (h.apply op), h.fires_apply he, any_cons, Bool.not_or, Bool.and_assoc]

theorem Inv.fires_doFire (h : Inv (e :: pending) s) (hl : s.live e = true) {e' : AlarmEntry} (he' : e' ∈ pending) :
    (s.doFire e.alarm).1.fires e' = s.fires e' := by
  obtain ⟨a, ha, hh⟩ := live_iff.1 hl
  have hput : (s.doFire e.alarm).1 = s.put e.alarm (some { a with currentScheduleHandle := none, deadline := 0 }) := by
    rw [doFire, ha]
  rw [hput]
  by_cases hne : e'.alarm = e.alarm
  · have hne' : e.scheduleHandle ≠ e'.scheduleHandle :=
      (pairwise_cons.1 h.distinct).1 e' (mem_append_left _ he')
    rw [← hne, fires_put_self (by simp)]
    refine (eq_false_iff.2 fun hf => ?_).symm
    obtain ⟨a', ha', hh', -⟩ := fires_iff.1 hf
    rw [hne, ha] at ha'
    cases ha'
    exact hne' (Option.some.inj (hh.symm.trans hh'))
  · exact fires_congr (update_of_ne hne _ _)

theorem Inv.turn_spec (h : Inv (e :: pending) s) (callback : Nat → List Op) (called : List (Int × Nat)) :
    (turn callback (s, called) e).2 = (if s.fires e then called ++ [(e.deadline, e.alarm)] else called) ∧
    ∀ e' ∈ pending, (turn callback (s, called) e).1.fires e' =
      (s.fires e' && !(if s.fires e then callback e.alarm else []).any (withdraws (e'.deadline, e'.alarm))) := by
  unfold QuicQueueAlarmFactory.turn
  by_cases hl : s.live e
  · obtain ⟨a, ha, hh⟩ := live_iff.1 hl
    have hcalled : (s.doFire e.alarm).2 = s.fires e := by
      rw [doFire, ha, fires, ha]
      by_cases hd : a.deadline = 0
      · simp [hd]
      · simp [hd, hh, (h.isSet _ _ ha hd).2]
    rw [if_pos hl]
    dsimp only
    rw [hcalled]
    cases hf : s.fires e with
    | true => exact ⟨rfl, fun e' he' => by rw [if_pos rfl, h.fired.fires_foldl he', h.fires_doFire hl he', if_pos rfl]⟩
    | false => exact ⟨rfl, fun e' he' => by simp [h.fires_doFire hl he']⟩
  · have hf : s.fires e = false := eq_false_iff.2 fun hf => by
      obtain ⟨a, ha, hh, -⟩ := fires_iff.1 hf
      exact hl (live_iff.2 ⟨a, ha, hh⟩)
    rw [if_neg hl, hf]
    exact ⟨rfl, fun e' _ => by simp⟩

theorem Inv.turns_spec (callback : Nat → List Op) (first : AlarmEntry → Bool) (h : Inv pending s) {ops : List Op}
    (hops : ∀ e ∈ pending, s.fires e = (first e && !ops.any (withdraws (e.deadline, e.alarm))))
    (called : List (Int × Nat)) :
    (pending.foldl (turn callback) (s, called)).2 =
      called ++ expected callback ((pending.filter first).map fun e => (e.deadline, e.alarm)) ops := by
  induction pending generalizing s called ops with
  | nil => exact (append_nil _).symm
  | cons e pending ih =>
    obtain ⟨hcalled, hothers⟩ := h.turn_spec callback called
    rw [foldl_cons, ← Prod.mk.eta (p := turn callback (s, called) e), hcalled]
    have hown := hops e mem_cons_self
    cases hf : s.fires e with
    | true =>
      rw [hf] at hown hothers
      obtain ⟨hfirst, hops0⟩ := and_eq_true_iff.1 hown.symm
      rw [not_eq_true'] at hops0
      rw [if_pos rfl, ih (h.turned callback called) (fun e' he' => ?_), filter_cons_of_pos hfirst, map_cons, expected,
        hops0, if_neg Bool.false_ne_true, append_assoc, singleton_append]
      rw [hothers e' he', hops e' (mem_cons_of_mem _ he'), if_pos rfl, any_append, Bool.not_or, Bool.and_assoc]
    | false =>
      rw [hf] at hown hothers
      have hsame : ∀ e' ∈ pending, (turn callback (s, called) e).1.fires e' =
          (first e' && !ops.any (withdraws (e'.deadline, e'.alarm))) := fun e' he' => by
        rw [hothers e' he', hops e' (mem_cons_of_mem _ he'), if_neg Bool.false_ne_true, any_nil, Bool.not_false,
          Bool.and_true]
      rw [if_neg Bool.false_ne_true, ih (h.turned callback called) hsame]
      cases hfirst : first e with
      | false => rw [filter_cons_of_neg (by simp [hfirst])]
      | true =>
        rw [hfirst, Bool.true_and] at hown
        rw [filter_cons_of_pos hfirst, map_cons, expected, if_pos (by simpa using hown)]

/-! ## Passes -/

theorem mem_takeWhile_of_sorted (h : l.Pairwise fun x y => x.deadline ≤ y.deadline) (he : e ∈ l) {time : Int}
    (hle : e.deadline ≤ time) : e ∈ l.takeWhile fun e => e.deadline ≤ time := by
  induction l with
  | nil => cases he
  | cons x l ih =>
    obtain ⟨hx, hl⟩ := pairwise_cons.1 h
    have hxt : x.deadline ≤ time := by
      rcases mem_cons.1 he with rfl | he
      · exact hle
      · exact (hx e he).trans hle
    rw [takeWhile_cons_of_pos (by simpa using hxt)]
    rcases mem_cons.1 he with rfl | he
    · exact mem_cons_self
    · exact mem_cons_of_mem _ (ih hl he)

theorem Inv.getNextUpcomingAlarm_le (h : Inv pending s) (ha : s.objects alarm = some a)
    (hd : a.deadline ≠ 0) : (∃ next, s.getNextUpcomingAlarm = some next ∧ next ≤ a.deadline) ∨
      ∃ e ∈ pending, e.alarm = alarm ∧ a.currentScheduleHandle = some e.scheduleHandle := by
  obtain ⟨handle, hh⟩ := Option.isSome_iff_exists.1 (h.isSet alarm a ha hd).1
  rcases mem_append.1 (h.entry alarm a handle ha hh) with hm | hm
  · exact .inr ⟨_, hm, rfl, hh⟩
  · left
    have hsorted := h.sorted
    unfold getNextUpcomingAlarm
    cases hq : s.alarms with
    | nil =>
      rw [hq] at hm
      cases hm
    | cons x l =>
      rw [hq] at hm hsorted
      refine ⟨x.deadline, rfl, ?_⟩
      rcases mem_cons.1 hm with rfl | hm
      · exact Int.le_refl _
      · exact (pairwise_cons.1 hsorted).1 _ hm

/-- **Passes.** After any calls and passes, a pass calls the alarms that are set and due, in the order of their
deadlines and each once, but for those that a callback before has withdrawn. -/
theorem pass_exact (es : List Ev) (time : Int) (callback : Nat → List Op) :
    (∃ due : List (Int × Nat), due.Pairwise (fun x y => x.1 ≤ y.1) ∧ (due.map Prod.snd).Nodup ∧
      (∀ deadline alarm, (deadline, alarm) ∈ due ↔
        deadline ≤ time ∧ deadline ≠ 0 ∧ ∃ a, (reached es).objects alarm = some a ∧ a.deadline = deadline) ∧
      ((reached es).processAlarmsUpTo time callback).2 = expected callback due []) ∧
    (∀ alarm a, (reached es).objects alarm = some a → a.deadline ≠ 0 →
      ∃ next, (reached es).getNextUpcomingAlarm = some next ∧ next ≤ a.deadline) ∧
    ∀ n alarm a, ((reached es).during time callback n).1.objects alarm = some a → a.deadline ≠ 0 →
      (∃ next, ((reached es).during time callback n).1.getNextUpcomingAlarm = some next ∧ next ≤ a.deadline) ∨
      ∃ e ∈ ((reached es).alarmsToCall time).drop n, e.alarm = alarm ∧
        a.currentScheduleHandle = some e.scheduleHandle := by
  have h := inv_reached es
  refine ⟨⟨(((reached es).alarmsToCall time).filter (reached es).fires).map fun e => (e.deadline, e.alarm), ?_, ?_, ?_,
    ?_⟩, ?_, ?_⟩
  · refine pairwise_map.2 (h.sorted.sublist ?_)
    exact filter_sublist.trans (takeWhile_sublist _)
  · -- Two entries of one alarm that are called have the same handle.
    rw [map_map]
    refine pairwise_map.2 ((h.distinct.sublist (filter_sublist.trans (takeWhile_sublist _))).imp_of_mem ?_)
    intro x y hx hy hne heq
    obtain ⟨a, ha, hh, -⟩ := fires_iff.1 (mem_filter.1 hx).2
    obtain ⟨a', ha', hh', -⟩ := fires_iff.1 (mem_filter.1 hy).2
    rw [show x.alarm = y.alarm from heq, ha'] at ha
    cases ha
    exact hne (Option.some.inj (hh.symm.trans hh'))
  · intro deadline alarm
    rw [mem_map]
    constructor
    · rintro ⟨e, he, heq⟩
      cases heq
      obtain ⟨hm, hf⟩ := mem_filter.1 he
      obtain ⟨a, ha, hh, hd⟩ := fires_iff.1 hf
      have hdeadline := h.agrees ((takeWhile_sublist _).subset hm) ha hh
      exact ⟨by simpa using mem_takeWhile_imp hm, hdeadline ▸ hd, a, ha, hdeadline⟩
    · rintro ⟨hle, hd, a, ha, rfl⟩
      obtain ⟨handle, hh⟩ := Option.isSome_iff_exists.1 (h.isSet alarm a ha hd).1
      exact ⟨⟨a.deadline, handle, alarm⟩,
        mem_filter.2 ⟨mem_takeWhile_of_sorted h.sorted (h.entry alarm a handle ha hh) hle, fires_iff.2 ⟨a, ha, hh, hd⟩⟩,
          rfl⟩
  · rw [processAlarmsUpTo, QuicQueueAlarmFactory.during, take_length]
    exact (h.taken time).turns_spec callback (reached es).fires
      (fun e _ => by rw [any_nil, Bool.not_false, Bool.and_true]; rfl) []
  · intro alarm a ha hd
    exact (h.getNextUpcomingAlarm_le ha hd).resolve_right fun ⟨_, he, _⟩ => (by cases he)
  · exact fun n alarm a ha hd => (h.during time callback n).getNextUpcomingAlarm_le ha hd

def threeAlarms : List Ev :=
  [.op (.create 0), .op (.create 1), .op (.create 2), .op (.set 0 5), .op (.set 1 6), .op (.set 2 20)]

/-- In the callback of the first, the second is still set, but not in the queue. -/
theorem next_later_than_set : (((reached threeAlarms).during 10 (fun _ => []) 1).2 = [(5, 0)] ∧
    (((reached threeAlarms).during 10 (fun _ => []) 1).1.objects 1).map (·.deadline) = some 6 ∧
    ((reached threeAlarms).during 10 (fun _ => []) 1).1.getNextUpcomingAlarm = some 20) := by decide

end QuicQueueAlarmFactory

end Quictun
