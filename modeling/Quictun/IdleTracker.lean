import Quictun.Run
import Mathlib.Data.List.Nodup
import Mathlib.Logic.Function.Basic

/-!
# The idle tracker

`QuictunIdleTracker` keeps the running tunnels of an endpoint in two intrusive
lists, one for each idle class, and the periodic sweep looks at nothing but their
fronts. `noteActivity` and `updateIdleClass` are the tunnel's two filing functions,
kept here over the four fields they read (`IdleState`) so that the tunnel model and
the fleet of all tunnels below share them.
-/

namespace Quictun

open List

abbrev Time := Int

/-- `order_` and `stalled_order_`. The lists are intrusive: a tunnel has one link, so
unlinking it needs no list to unlink it from. -/
structure QuictunIdleTracker (T : Type) where
  order : List T := []
  stalledOrder : List T := []
deriving DecidableEq

structure IdleState where
  started : Bool := false
  closed : Bool := false
  stalled : Bool := false
  lastActivity : Time := 0
deriving DecidableEq, Inhabited

namespace QuictunIdleTracker

section
variable {T : Type}

section
variable (k : QuictunIdleTracker T)

def list : Bool → List T
  | true => k.stalledOrder
  | false => k.order

def pushBack (t : T) : Bool → QuictunIdleTracker T
  | true => { k with stalledOrder := k.stalledOrder ++ [t] }
  | false => { k with order := k.order ++ [t] }

@[simp] theorem list_pushBack (t : T) (s b : Bool) :
    (k.pushBack t s).list b = if b = s then k.list b ++ [t] else k.list b := by
  cases s <;> cases b <;> rfl

end

variable [DecidableEq T]

section
variable (k : QuictunIdleTracker T)

def isLinked (t : T) : Bool := k.order.contains t || k.stalledOrder.contains t

def remove (t : T) : QuictunIdleTracker T :=
  { order := k.order.erase t, stalledOrder := k.stalledOrder.erase t }

def touch (t : T) (stalled : Bool) : QuictunIdleTracker T :=
  if (k.list stalled).getLast? = some t then k else (k.remove t).pushBack t stalled

def refile (t : T) (stalled : Bool) : QuictunIdleTracker T :=
  if k.isLinked t then k.touch t stalled else k

def noteActivity (t : T) (i : IdleState) (now : Time) (holding : Bool) :
    QuictunIdleTracker T × IdleState :=
  if i.closed then (k, i)
  else (k.touch t holding, { i with lastActivity := now, stalled := holding })

def updateIdleClass (t : T) (i : IdleState) (now : Time) (holding : Bool) :
    QuictunIdleTracker T × IdleState :=
  if i.closed then (k, i)
  else if holding = i.stalled then (k, i)
  else (k.refile t holding, { i with lastActivity := now, stalled := holding })

@[simp] theorem list_remove (t : T) (b : Bool) : (k.remove t).list b = (k.list b).erase t := by
  cases b <;> rfl

theorem isLinked_iff (t : T) : k.isLinked t = true ↔ ∃ b, t ∈ k.list b := by
  simp only [isLinked, Bool.or_eq_true, contains_iff_mem, Bool.exists_bool, list]

end

variable {i : IdleState}

theorem noteActivity_closed (hc : i.closed = true) (k : QuictunIdleTracker T) (t : T) (now : Time)
    (h : Bool) : k.noteActivity t i now h = (k, i) :=
  if_pos hc

theorem noteActivity_open (hc : i.closed = false) (k : QuictunIdleTracker T) (t : T) (now : Time)
    (h : Bool) : k.noteActivity t i now h = (k.touch t h, { i with lastActivity := now, stalled := h }) :=
  if_neg (by simp [hc])

theorem updateIdleClass_open (hc : i.closed = false) (k : QuictunIdleTracker T) (t : T) (now : Time)
    (h : Bool) : k.updateIdleClass t i now h =
      if h = i.stalled then (k, i) else (k.refile t h, { i with lastActivity := now, stalled := h }) :=
  if_neg (by simp [hc])

section
variable (k : QuictunIdleTracker T)

theorem list_touch (t : T) (s b : Bool)
    (hn : (k.list s).count t ≤ 1) (hd : t ∈ k.list s → t ∉ k.list (!s)) :
    (k.touch t s).list b = if b = s then (k.list b).erase t ++ [t] else (k.list b).erase t := by
  unfold touch
  split
  next hl =>
    obtain ⟨l, hl⟩ := getLast?_eq_some_iff.1 hl
    rw [hl] at hn
    have ht : t ∉ l := by
      rw [count_append, count_singleton_self] at hn
      exact count_eq_zero.1 (by omega)
    by_cases hb : b = s
    · subst hb
      rw [if_pos rfl, hl, erase_append_right _ ht]
      simp
    · obtain rfl : b = !s := by cases b <;> cases s <;> simp_all
      rw [if_neg hb, erase_of_not_mem (hd (by simp [hl]))]
  · rw [list_pushBack, list_remove]

/-! ## Where one tunnel is filed -/

def Linked (t : T) (s : Bool) : Prop := ∀ b, (k.list b).count t = if b = s then 1 else 0

def Unlinked (t : T) : Prop := ∀ b, (k.list b).count t = 0

def Filed (t : T) (i : IdleState) : Prop :=
  if i.started = true ∧ i.closed = false then Linked k t i.stalled else Unlinked k t

end

section
variable {k : QuictunIdleTracker T} {t : T} {i : IdleState} {s s' : Bool}

theorem linked_touch (h : Linked k t s ∨ Unlinked k t) : Linked (k.touch t s') t s' := by
  have hle : ∀ b, (k.list b).count t ≤ 1 := by
    intro b
    rcases h with h | h <;> rw [h b]
    · split <;> omega
    · omega
  have hd : t ∈ k.list s' → t ∉ k.list (!s') := by
    intro h1 h2
    rw [← count_pos_iff] at h1 h2
    rcases h with h | h <;> rw [h] at h1 h2
    · cases s <;> cases s' <;> simp at h1 h2
    · omega
  intro b
  rw [list_touch k t s' b (hle s') hd]
  have he : ((k.list b).erase t).count t = 0 := by
    rw [count_erase_self]
    have := hle b
    omega
  split <;> simp [he]

theorem unlinked_remove (h : Linked k t s ∨ Unlinked k t) : Unlinked (k.remove t) t := by
  intro b
  rw [list_remove, count_erase_self]
  rcases h with h | h <;> rw [h b]
  split <;> rfl

theorem Filed.linked_or (h : Filed k t i) : (∃ s, Linked k t s) ∨ Unlinked k t := by
  unfold Filed at h
  split at h
  · exact .inl ⟨_, h⟩
  · exact .inr h

theorem filed_start (h : Filed k t i) (hc : i.closed = false) (now : Time) (b : Bool) :
    Filed (k.noteActivity t { i with started := true } now b).1 t
      (k.noteActivity t { i with started := true } now b).2 := by
  rw [noteActivity_open (by exact hc), Filed, if_pos ⟨rfl, hc⟩]
  rcases h.linked_or with ⟨s, h⟩ | h
  · exact linked_touch (.inl h)
  · exact linked_touch (s := true) (.inr h)

theorem filed_close (h : Filed k t i) : Filed (k.remove t) t { i with closed := true } := by
  rw [Filed, if_neg (by simp)]
  rcases h.linked_or with ⟨s, h⟩ | h
  · exact unlinked_remove (.inl h)
  · exact unlinked_remove (s := true) (.inr h)

theorem filed_noteActivity (h : Filed k t i) (hs : i.started = true) (now : Time) (b : Bool) :
    Filed (k.noteActivity t i now b).1 t (k.noteActivity t i now b).2 := by
  by_cases hc : i.closed = true
  · rw [noteActivity_closed hc]
    exact h
  · rw [Bool.not_eq_true] at hc
    rw [noteActivity_open hc]
    rw [Filed, if_pos ⟨hs, hc⟩] at h ⊢
    exact linked_touch (.inl h)

theorem filed_updateIdleClass (h : Filed k t i) (now : Time) (b : Bool) :
    Filed (k.updateIdleClass t i now b).1 t (k.updateIdleClass t i now b).2 := by
  by_cases hc : i.closed = true
  · rwa [show k.updateIdleClass t i now b = (k, i) from if_pos hc]
  rw [Bool.not_eq_true] at hc
  rw [updateIdleClass_open hc]
  split
  · exact h
  unfold refile Filed at *
  by_cases hs : i.started = true
  · rw [if_pos ⟨hs, hc⟩] at h ⊢
    rw [if_pos ((k.isLinked_iff t).2 ⟨i.stalled, count_pos_iff.1 (by rw [h, if_pos rfl]; omega)⟩)]
    exact linked_touch (.inl h)
  · rw [if_neg fun h' => hs h'.1] at h ⊢
    rw [if_neg fun h' => by
      obtain ⟨b, hb⟩ := (k.isLinked_iff t).1 h'
      rw [← count_pos_iff, h b] at hb
      omega]
    exact h

end

end

end QuictunIdleTracker

/-! ## All tunnels of an endpoint -/

structure Fleet (T : Type) where
  tracker : QuictunIdleTracker T
  idle : T → IdleState
  now : Time

namespace Fleet

section
variable {T : Type} [DecidableEq T]

variable (f : Fleet T)

def start (t : T) (holding : Bool) : Fleet T :=
  let r := f.tracker.noteActivity t { f.idle t with started := true } f.now holding
  { f with tracker := r.1, idle := Function.update f.idle t r.2 }

def noteActivity (f : Fleet T) (t : T) (holding : Bool) : Fleet T :=
  let r := f.tracker.noteActivity t (f.idle t) f.now holding
  { f with tracker := r.1, idle := Function.update f.idle t r.2 }

def updateIdleClass (f : Fleet T) (t : T) (holding : Bool) : Fleet T :=
  let r := f.tracker.updateIdleClass t (f.idle t) f.now holding
  { f with tracker := r.1, idle := Function.update f.idle t r.2 }

def closeOne (t : T) : Fleet T :=
  { f with
    tracker := f.tracker.remove t
    idle := Function.update f.idle t { f.idle t with closed := true } }

def closeAll (ts : List T) : Fleet T :=
  ts.foldl (fun f t => if (f.idle t).closed then f else f.closeOne t) f

/-- `Close()` with the calls it makes: `owner f t` lists the further tunnels the owner closes,
in order, while it handles the close of `t`. -/
def close (owner : Fleet T → T → List T) (f : Fleet T) (t : T) : Fleet T :=
  (f.closeOne t).closeAll (owner (f.closeOne t) t)

/-- `CloseExpired`. Also returns the tunnels the loop itself closed; `none` if `fuel` rounds
do not end the loop. -/
def closeExpired (owner : Fleet T → T → List T) (stalled : Bool) (timeout : Time) :
    Nat → Fleet T → Option (Fleet T × List T)
  | 0, _ => none
  | fuel + 1, f =>
    match f.tracker.list stalled with
    | [] => some (f, [])
    | t :: _ =>
      if timeout ≤ f.now - (f.idle t).lastActivity then
        (closeExpired owner stalled timeout fuel (f.close owner t)).map fun r => (r.1, t :: r.2)
      else some (f, [])

def closeIdleTunnels (owner : Fleet T → T → List T) (timeout stalledTimeout : Time) (f : Fleet T) :
    Option (Fleet T × List T × List T) :=
  (closeExpired owner false timeout (f.tracker.order.length + 1) f).bind fun r =>
    (closeExpired owner true stalledTimeout (r.1.tracker.stalledOrder.length + 1) r.1).map fun q =>
      (q.1, r.2, q.2)

/-- What can happen to a fleet. `holding` is what `IsHoldingBuffer()` returns at the call. -/
inductive Ev (T : Type)
  | tick (d : Nat)
  | start (t : T) (holding : Bool)
  | noteActivity (t : T) (holding : Bool)
  | updateIdleClass (t : T) (holding : Bool)
  | close (owner : Fleet T → T → List T) (t : T)
  | sweep (owner : Fleet T → T → List T) (timeout stalledTimeout : Time)

/-- `NoteActivity()` is private and every caller runs after `Start()`; `Close()` is called on
open tunnels only. -/
def step : Ev T → Option (Fleet T)
  | .tick d => some { f with now := f.now + d }
  | .start t h => some (f.start t h)
  | .noteActivity t h => if (f.idle t).started then some (f.noteActivity t h) else none
  | .updateIdleClass t h => some (f.updateIdleClass t h)
  | .close owner t => if (f.idle t).closed then none else some (f.close owner t)
  | .sweep owner timeout stalledTimeout => (f.closeIdleTunnels owner timeout stalledTimeout).map (·.1)

def init (now : Time) : Fleet T := { tracker := {}, idle := fun _ => {}, now := now }

end

end Fleet

end Quictun
