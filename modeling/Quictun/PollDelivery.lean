import Quictun.PollEventLoop

/-!
# What the event loop delivers

Every note of the history has its reasons in the notes before it: a listener is called
for what was taken out of its registration in this iteration, and that had been armed or
asked for since it was last taken out. The registrations agree with the history, so that
nothing that is armed or asked for gets lost. And what the history has of requests is what
the callers of the run have made, each on the registration its descriptor had then.
-/

namespace Quictun

open List

open Udp (QuicSocketEventMask)

namespace Poll

/-! ## Masks -/

section
variable {m m' : QuicSocketEventMask} {k : Kind}

@[simp] theorem has_empty : ({} : QuicSocketEventMask).has k = false := by
  cases k <;> rfl

@[simp] theorem has_union : (m.union m').has k = (m.has k || m'.has k) := by
  cases k <;> rfl

@[simp] theorem has_diff : (m.diff m').has k = (m.has k && !m'.has k) := by
  cases k <;> rfl

theorem exists_has (h : m ≠ {}) : ∃ k, m.has k = true := by
  by_contra hn
  push Not at hn
  apply h
  have hr := hn .readable
  have hw := hn .writable
  have he := hn .error
  obtain ⟨r, w, e⟩ := m
  simp_all [QuicSocketEventMask.has]

variable (r : Registration)

def readyMask (mask : PollMask) : PollMask :=
  (mask.union (getPollMask r.artificiallyNotifyAtNextIteration)).inter
    (getPollMask (r.events.union r.artificiallyNotifyAtNextIteration))

theorem has_readyMask (mask : PollMask) (k : Kind) : (getEventMask (readyMask r mask)).has k =
    (r.artificiallyNotifyAtNextIteration.has k || (r.events.has k && (getEventMask mask).has k)) := by
  have hbool : ∀ a b c : Bool, ((c || a) && (b || a)) = (a || (b && c)) := by decide
  cases k <;> exact hbool _ _ _

end

/-! ## The history -/

def Note.about : Note → Option Nat
  | .registered r _ _ _ | .rearmed r _ | .notified r _ | .removed r | .collected r _ | .called r _ _ _ => some r
  | .polled => none

def Note.collects (r : Nat) : Note → Bool
  | .collected q _ => q = r
  | _ => false

def Note.calls (r : Nat) : Note → Bool
  | .called q _ _ _ => q = r
  | _ => false

def thisIteration (log : List Note) : List Note := log.takeWhile (· ≠ .polled)

def armed (r : Nat) (k : Kind) : List Note → Bool
  | [] => false
  | .registered q _ _ m :: before => (decide (q = r) && m.has k) || armed r k before
  | .rearmed q m :: before => (decide (q = r) && m.has k) || armed r k before
  | .collected q m :: before => !(decide (q = r) && m.has k) && armed r k before
  | _ :: before => armed r k before

def notified (r : Nat) (k : Kind) : List Note → Bool
  | [] => false
  | .notified q m :: before => (decide (q = r) && m.has k) || notified r k before
  | .collected q m :: before => !(decide (q = r) && m.has k) && notified r k before
  | _ :: before => notified r k before

def Justified : Note → List Note → Prop
  | .collected r m, before =>
    (∀ n ∈ thisIteration before, n.collects r = false) ∧
      ∀ k, m.has k = true → armed r k before = true ∨ notified r k before = true
  | .called r listener fd m, before =>
    .collected r m ∈ thisIteration before ∧ (∀ n ∈ thisIteration before, n.calls r = false) ∧
      (∃ events, .registered r fd listener events ∈ before) ∧ .removed r ∉ before
  | _, _ => True

def Accounted : List Note → Prop
  | [] => True
  | n :: before => Justified n before ∧ Accounted before

section
variable {n : Note} {log : List Note} {r : Nat} {k : Kind}

theorem thisIteration_cons (hn : n ≠ .polled) : thisIteration (n :: log) = n :: thisIteration log := by
  simp [thisIteration, hn]

@[simp] theorem thisIteration_polled : thisIteration (.polled :: log) = [] := by
  simp [thisIteration]

theorem wanted_cons (hn : n.about ≠ some r) :
    armed r k (n :: log) = armed r k log ∧ notified r k (n :: log) = notified r k log := by
  cases n <;> simp_all [armed, notified, Note.about]

theorem wanted_of_unknown (h : ∀ n ∈ log, n.about ≠ some r) : armed r k log = false ∧ notified r k log = false := by
  induction log with
  | nil => exact ⟨rfl, rfl⟩
  | cons n log ih =>
    obtain ⟨ha, hn⟩ := @wanted_cons n log r k (h n mem_cons_self)
    rw [ha, hn]
    exact ih fun m hm => h m (mem_cons_of_mem n hm)

end

structure Fits (log : List Note) (e : SocketFd × Registration) : Prop where
  registered : ∃ events, .registered e.2.id e.1 e.2.listener events ∈ log
  notRemoved : .removed e.2.id ∉ log
  events : ∀ k, e.2.events.has k = armed e.2.id k log
  artificial : ∀ k, e.2.artificiallyNotifyAtNextIteration.has k = notified e.2.id k log

variable {log : List Note} {n : Note}

theorem Fits.notRemoved_cons {e : SocketFd × Registration} (h : Fits log e) (hn : n ≠ .removed e.2.id) :
    .removed e.2.id ∉ n :: log := fun hm => (mem_cons.1 hm).elim hn.symm h.notRemoved

theorem Fits.note {e : SocketFd × Registration} (h : Fits log e) (hn : n.about ≠ some e.2.id) : Fits (n :: log) e where
  registered := h.registered.imp fun _ => mem_cons_of_mem n
  notRemoved := h.notRemoved_cons (by rintro rfl; exact hn rfl)
  events k := by rw [(wanted_cons hn).1, h.events k]
  artificial k := by rw [(wanted_cons hn).2, h.artificial k]

theorem Fits.called {log : List Note} {e : SocketFd × Registration} (h : Fits log e) (r listener : Nat) (fd : SocketFd)
    (m : QuicSocketEventMask) : Fits (.called r listener fd m :: log) e where
  registered := h.registered.imp fun _ => mem_cons_of_mem _
  notRemoved := h.notRemoved_cons nofun
  events := h.events
  artificial := h.artificial

def Registration.taken (r : Registration) (m : QuicSocketEventMask) : Registration :=
  { r with artificiallyNotifyAtNextIteration := {}, events := r.events.diff m }

theorem Fits.collected {log : List Note} {fd : SocketFd} {r : Registration} (h : Fits log (fd, r)) (mask : PollMask) :
    Fits (.collected r.id (getEventMask (readyMask r mask)) :: log)
      (fd, r.taken (getEventMask (readyMask r mask))) := by
  refine ⟨h.registered.imp fun _ => mem_cons_of_mem _, h.notRemoved_cons nofun, fun k => ?_, fun k => ?_⟩
  · have he : r.events.has k = armed r.id k log := h.events k
    simp only [Registration.taken, has_diff, armed, decide_true, Bool.true_and]
    rw [he, Bool.and_comm]
  · have ha : r.artificiallyNotifyAtNextIteration.has k = notified r.id k log := h.artificial k
    simp only [Registration.taken, has_empty, notified, decide_true, Bool.true_and]
    rw [← ha, has_readyMask]
    cases r.artificiallyNotifyAtNextIteration.has k <;> simp

theorem Fits.wanted {fd : SocketFd} {r : Registration} (h : Fits log (fd, r)) {mask : PollMask} {k : Kind}
    (hk : (getEventMask (readyMask r mask)).has k = true) : armed r.id k log = true ∨ notified r.id k log = true := by
  have he : r.events.has k = armed r.id k log := h.events k
  have ha : r.artificiallyNotifyAtNextIteration.has k = notified r.id k log := h.artificial k
  rw [has_readyMask, Bool.or_eq_true, Bool.and_eq_true] at hk
  rw [← he, ← ha]
  rcases hk with hk | ⟨hk, -⟩
  · exact .inr hk
  · exact .inl hk

structure Waits (log : List Note) (x : ReadyListEntry) : Prop where
  collected : .collected x.registration x.events ∈ thisIteration log
  notCalled : ∀ n ∈ thisIteration log, n.calls x.registration = false

theorem Waits.note {x : ReadyListEntry} (h : Waits log x) (hn : n ≠ .polled)
    (hc : n.calls x.registration = false) : Waits (n :: log) x := by
  constructor
  · rw [thisIteration_cons hn]
    exact mem_cons_of_mem n h.collected
  · rw [thisIteration_cons hn]
    exact forall_mem_cons.2 ⟨hc, h.notCalled⟩

end Poll

open Poll

namespace QuicPollEventLoop

structure Inv (l : QuicPollEventLoop) : Prop where
  fds : (l.registrations.map Prod.fst).Nodup
  ids : (l.registrations.map fun e => e.2.id).Nodup
  made : ∀ e ∈ l.registrations, e.2.id < l.made
  known : ∀ n ∈ l.log, ∀ r, n.about = some r → r < l.made
  fits : ∀ e ∈ l.registrations, Fits l.log e
  pending : ∀ e ∈ l.registrations, e.2.artificiallyNotifyAtNextIteration ≠ {} → l.hasArtificialEventsPending = true
  accounted : Accounted l.log
  ready : ∀ x ∈ l.readyList, ∀ e ∈ l.registrations, e.2.id = x.registration → e.1 = x.fd ∧ Waits l.log x
  distinct : (l.readyList.map ReadyListEntry.registration).Nodup
  entries : ∀ x ∈ l.readyList, x.registration < l.made

@[simp] theorem log_note (l : QuicPollEventLoop) (n : Note) : (l.note n).log = n :: l.log := rfl

section
variable {l : QuicPollEventLoop} {fd : SocketFd} {r : Registration} {e e' : SocketFd × Registration}

theorem mem_of_find (h : l.find fd = some r) : (fd, r) ∈ l.registrations := by
  unfold find at h
  obtain ⟨e, he, rfl⟩ := Option.map_eq_some_iff.1 h
  have hp := find?_some he
  simp only [decide_eq_true_eq] at hp
  subst hp
  exact mem_of_find?_eq_some he

theorem not_mem_of_find (h : l.find fd = none) : fd ∉ l.registrations.map Prod.fst := by
  unfold find at h
  rw [Option.map_eq_none_iff, find?_eq_none] at h
  intro hm
  obtain ⟨e, he, rfl⟩ := mem_map.1 hm
  exact h e he (by simp)

theorem Inv.eq_of_fd (h : Inv l) (he : e ∈ l.registrations) (he' : e' ∈ l.registrations) (hf : e.1 = e'.1) : e = e' :=
  inj_on_of_nodup_map h.fds he he' hf

theorem Inv.eq_of_id (h : Inv l) (he : e ∈ l.registrations) (he' : e' ∈ l.registrations) (hf : e.2.id = e'.2.id) :
    e = e' :=
  inj_on_of_nodup_map h.ids he he' hf

variable {f : Registration → Registration}

theorem mem_update : e ∈ (l.update fd f).registrations ↔
    (e ∈ l.registrations ∧ e.1 ≠ fd) ∨ ∃ q, (fd, q) ∈ l.registrations ∧ e = (fd, f q) := by
  simp only [update, mem_map]
  constructor
  · rintro ⟨d, hd, rfl⟩
    split
    next hf =>
      rw [hf]
      exact .inr ⟨d.2, hf ▸ hd, rfl⟩
    next hf =>
      exact .inl ⟨hd, hf⟩
  · rintro (⟨he, hf⟩ | ⟨q, hq, rfl⟩)
    · exact ⟨e, he, if_neg hf⟩
    · exact ⟨(fd, q), hq, if_pos rfl⟩

theorem map_update {β : Type} (g : SocketFd × Registration → β)
    (hg : ∀ d : SocketFd × Registration, g (d.1, f d.2) = g d) :
    (l.update fd f).registrations.map g = l.registrations.map g := by
  rw [update, map_map]
  refine map_congr_left fun d _ => ?_
  by_cases hf : d.1 = fd
  · simp [hf, ← hg d]
  · simp [hf]

theorem update_eq_self (hf : ∀ q, (fd, q) ∈ l.registrations → f q = q) : l.update fd f = l := by
  have h : (l.registrations.map fun e => if e.1 = fd then (e.1, f e.2) else e) = l.registrations := by
    conv_rhs => rw [← map_id l.registrations]
    refine map_congr_left fun d hd => ?_
    split
    next hfd =>
      rw [hf d.2 (hfd ▸ hd), id]
    · rw [id]
  rw [update, h]

theorem Inv.touch (h : Inv l) (hm : (fd, r) ∈ l.registrations) {n : Note} {p : Bool}
    (hf : ∀ q, (f q).id = q.id) (hn : n.about = some r.id) (hc : ∀ q, n.calls q = false) (hj : Justified n l.log)
    (hfits : Fits (n :: l.log) (fd, f r)) (hp : l.hasArtificialEventsPending = true → p = true)
    (hpr : (f r).artificiallyNotifyAtNextIteration ≠ {} → p = true) :
    Inv { (l.note n).update fd f with hasArtificialEventsPending := p } := by
  have hnp : n ≠ .polled := by
    rintro rfl
    cases hn
  have hmem : ∀ e ∈ ((l.note n).update fd f).registrations, (e ∈ l.registrations ∧ e.1 ≠ fd) ∨ e = (fd, f r) := by
    intro e he
    refine (mem_update.1 he).imp_right fun ⟨q, hq, hqe⟩ => ?_
    have hqr : (fd, q) = (fd, r) := h.eq_of_fd hq hm rfl
    rw [hqe, (Prod.mk.inj hqr).2]
  have hlt : r.id < l.made := h.made _ hm
  constructor
  · have hfst : ((l.note n).update fd f).registrations.map Prod.fst = l.registrations.map Prod.fst :=
      map_update Prod.fst fun _ => rfl
    exact hfst ▸ h.fds
  · have hids : ((l.note n).update fd f).registrations.map (fun e => e.2.id) = l.registrations.map fun e => e.2.id :=
      map_update (fun e => e.2.id) fun d => hf d.2
    exact hids ▸ h.ids
  · intro e he
    rcases hmem e he with ⟨he, -⟩ | rfl
    · exact h.made e he
    · exact (hf r).symm ▸ hlt
  · intro m hm' q hq
    rcases mem_cons.1 hm' with rfl | hm'
    · exact Option.some.inj (hn.symm.trans hq) ▸ hlt
    · exact h.known m hm' q hq
  · intro e he
    rcases hmem e he with ⟨he, hne⟩ | rfl
    · refine (h.fits e he).note ?_
      rw [hn]
      exact fun hid => hne (congrArg Prod.fst (h.eq_of_id he hm (Option.some.inj hid).symm))
    · exact hfits
  · intro e he ha
    rcases hmem e he with ⟨he, -⟩ | rfl
    · exact hp (h.pending e he ha)
    · exact hpr ha
  · exact ⟨hj, h.accounted⟩
  · intro x hx e he hid
    have hold : ∃ d ∈ l.registrations, d.1 = e.1 ∧ d.2.id = e.2.id := by
      rcases hmem e he with ⟨he, -⟩ | rfl
      · exact ⟨e, he, rfl, rfl⟩
      · exact ⟨(fd, r), hm, rfl, (hf r).symm⟩
    obtain ⟨d, hd, hfd, hdi⟩ := hold
    obtain ⟨hxd, hw⟩ := h.ready x hx d hd (hdi.trans hid)
    exact ⟨hfd ▸ hxd, hw.note hnp (hc _)⟩
  · exact h.distinct
  · exact h.entries

theorem Inv.rearmSocket (h : Inv l) (fd : SocketFd) (m : QuicSocketEventMask) : Inv (l.rearmSocket fd m).1 := by
  unfold QuicPollEventLoop.rearmSocket
  cases hf : l.find fd with
  | none => exact h
  | some r =>
    have hm := mem_of_find hf
    have ht := h.fits _ hm
    refine h.touch (n := .rearmed r.id m) (f := fun q => { q with events := q.events.union m }) hm (fun _ => rfl) rfl
      (fun _ => rfl) trivial ?_ id (h.pending _ hm)
    refine ⟨ht.registered.imp fun _ => mem_cons_of_mem _, ht.notRemoved_cons nofun, fun k => ?_, ht.artificial⟩
    have hk := ht.events k
    simp only [has_union, armed, decide_true, Bool.true_and]
    rw [Bool.or_comm]
    exact congrArg _ hk

theorem Inv.artificiallyNotifyEvent (h : Inv l) (fd : SocketFd) (m : QuicSocketEventMask) :
    Inv (l.artificiallyNotifyEvent fd m).1 := by
  unfold QuicPollEventLoop.artificiallyNotifyEvent
  cases hf : l.find fd with
  | none => exact h
  | some r =>
    have hm := mem_of_find hf
    have ht := h.fits _ hm
    refine h.touch (n := .notified r.id m) hm (fun _ => rfl) rfl (fun _ => rfl) trivial ?_ (fun _ => rfl) fun _ => rfl
    refine ⟨ht.registered.imp fun _ => mem_cons_of_mem _, ht.notRemoved_cons nofun, ht.events, fun k => ?_⟩
    have hk := ht.artificial k
    simp only [has_union, notified, decide_true, Bool.true_and]
    rw [Bool.or_comm]
    exact congrArg _ hk

theorem Inv.unregisterSocket (h : Inv l) (fd : SocketFd) : Inv (l.unregisterSocket fd).1 := by
  unfold QuicPollEventLoop.unregisterSocket
  cases hf : l.find fd with
  | none => exact h
  | some r =>
    have hm := mem_of_find hf
    have hsub : (l.registrations.filter fun e => e.1 ≠ fd).Sublist l.registrations := filter_sublist
    have hne : ∀ e ∈ l.registrations.filter (fun e => e.1 ≠ fd), e.2.id ≠ r.id := by
      intro e he hid
      have he' := mem_filter.1 he
      have : e = (fd, r) := h.eq_of_id he'.1 hm hid
      simp [this] at he'
    constructor
    · exact h.fds.sublist (hsub.map _)
    · exact h.ids.sublist (hsub.map _)
    · exact fun e he => h.made e (hsub.subset he)
    · intro n hn q hq
      rcases mem_cons.1 hn with rfl | hn
      · exact Option.some.inj hq ▸ h.made _ hm
      · exact h.known n hn q hq
    · exact fun e he => (h.fits e (hsub.subset he)).note fun hid => hne e he (Option.some.inj hid).symm
    · exact fun e he => h.pending e (hsub.subset he)
    · exact ⟨trivial, h.accounted⟩
    · intro x hx e he hid
      obtain ⟨hxd, hw⟩ := h.ready x hx e (hsub.subset he) hid
      exact ⟨hxd, hw.note nofun rfl⟩
    · exact h.distinct
    · exact h.entries

theorem Inv.registerSocket (h : Inv l) (fd : SocketFd) (m : QuicSocketEventMask) (listener : Nat) :
    Inv (l.registerSocket fd m listener).1 := by
  unfold QuicPollEventLoop.registerSocket
  cases hf : l.find fd with
  | some r => exact h
  | none =>
    have hunknown : ∀ n ∈ l.log, n.about ≠ some l.made := fun n hn ha => lt_irrefl _ (h.known n hn _ ha)
    have hnew : ∀ e ∈ l.registrations, e.2.id ≠ l.made := fun e he hid => lt_irrefl _ (hid ▸ h.made e he)
    have hmem : ∀ e ∈ l.registrations ++ [(fd, { id := l.made, events := m, listener := listener })],
        e ∈ l.registrations ∨ e = (fd, { id := l.made, events := m, listener := listener }) := fun e he => by
      simpa using he
    constructor
    · rw [map_append, map_singleton, nodup_append_comm, singleton_append, nodup_cons]
      exact ⟨not_mem_of_find hf, h.fds⟩
    · rw [map_append, map_singleton, nodup_append_comm, singleton_append, nodup_cons]
      refine ⟨fun hm => ?_, h.ids⟩
      obtain ⟨e, he, hid⟩ := mem_map.1 hm
      exact hnew e he hid
    · intro e he
      rcases hmem e he with he | rfl
      · exact Nat.lt_succ_of_lt (h.made e he)
      · exact Nat.lt_succ_self _
    · intro n hn q hq
      rcases mem_cons.1 hn with rfl | hn
      · exact Option.some.inj hq ▸ Nat.lt_succ_self _
      · exact Nat.lt_succ_of_lt (h.known n hn q hq)
    · intro e he
      rcases hmem e he with he | rfl
      · exact (h.fits e he).note fun hid => hnew e he (Option.some.inj hid).symm
      · refine ⟨⟨m, mem_cons_self⟩, fun hr => ?_, fun k => ?_, fun k => ?_⟩
        · rcases mem_cons.1 hr with hr | hr
          · cases hr
          · exact hunknown _ hr rfl
        · simp [armed, (wanted_of_unknown hunknown).1]
        · simp [notified, (wanted_of_unknown hunknown).2]
    · intro e he ha
      rcases hmem e he with he | rfl
      · exact h.pending e he ha
      · exact absurd rfl ha
    · exact ⟨trivial, h.accounted⟩
    · intro x hx e he hid
      rcases hmem e he with he | rfl
      · obtain ⟨hxd, hw⟩ := h.ready x hx e he hid
        exact ⟨hxd, hw.note nofun rfl⟩
      · exact absurd hid (ne_of_gt (h.entries x hx))
    · exact h.distinct
    · exact fun x hx => Nat.lt_succ_of_lt (h.entries x hx)

/-! ## An iteration -/

variable {m : QuicSocketEventMask}

theorem Inv.enqueue (h : Inv l) (he : e ∈ l.registrations) (hw : Waits l.log ⟨e.1, e.2.id, m⟩)
    (hn : e.2.id ∉ l.readyList.map ReadyListEntry.registration) :
    Inv { l with readyList := l.readyList ++ [⟨e.1, e.2.id, m⟩] } := by
  refine { h with ready := fun x hx d hd hid => ?_, distinct := ?_, entries := fun x hx => ?_ }
  · rcases mem_append.1 hx with hx | hx
    · exact h.ready x hx d hd hid
    · obtain rfl := mem_singleton.1 hx
      obtain rfl := h.eq_of_id hd he hid
      exact ⟨rfl, hw⟩
  · rw [map_append, map_singleton, nodup_append_comm, singleton_append, nodup_cons]
    exact ⟨hn, h.distinct⟩
  · rcases mem_append.1 hx with hx | hx
    · exact h.entries x hx
    · obtain rfl := mem_singleton.1 hx
      exact h.made e he

theorem Inv.find_of_mem (h : Inv l) (hm : (fd, r) ∈ l.registrations) : l.find fd = some r := by
  cases hf : l.find fd with
  | none => exact absurd (mem_map_of_mem hm) (not_mem_of_find hf)
  | some q =>
    have hq := h.eq_of_fd (mem_of_find hf) hm rfl
    rw [(Prod.mk.inj hq).2]

variable {mask : PollMask}

theorem dispatchIoEvent_eq (hf : l.find fd = some r) : l.dispatchIoEvent fd mask =
    if readyMask r mask = {} then l.update fd fun q => { q with artificiallyNotifyAtNextIteration := {} }
    else
      { ((l.update fd fun q => { q with artificiallyNotifyAtNextIteration := {} }).note
          (.collected r.id (getEventMask (readyMask r mask)))).update fd fun q =>
            { q with events := q.events.diff (getEventMask (readyMask r mask)) } with
        readyList := l.readyList ++ [⟨fd, r.id, getEventMask (readyMask r mask)⟩] } := by
  unfold dispatchIoEvent
  rw [hf]
  rfl

theorem Inv.dispatch_empty (h : Inv l) (hm : (fd, r) ∈ l.registrations)
    (hr : readyMask r mask = {}) : l.dispatchIoEvent fd mask = l ∧ r.artificiallyNotifyAtNextIteration = {} := by
  have ha : r.artificiallyNotifyAtNextIteration = {} := by
    by_contra hne
    obtain ⟨k, hk⟩ := exists_has hne
    have := has_readyMask r mask k
    rw [hr, hk] at this
    cases k <;> cases this
  refine ⟨?_, ha⟩
  rw [dispatchIoEvent_eq (h.find_of_mem hm), if_pos hr]
  refine update_eq_self fun q hq => ?_
  obtain rfl : q = r := (Prod.mk.inj (h.eq_of_fd hq hm rfl)).2
  rw [← ha]

def collect (l : QuicPollEventLoop) (fd : SocketFd) (r : Registration) (m : QuicSocketEventMask) : QuicPollEventLoop :=
  { (l.note (.collected r.id m)).update fd fun q => q.taken m with readyList := l.readyList ++ [⟨fd, r.id, m⟩] }

theorem registrations_collect (m : QuicSocketEventMask) :
    (l.collect fd r m).registrations = (l.update fd fun q => q.taken m).registrations := rfl

theorem mem_collect : e ∈ (l.collect fd r m).registrations ↔
    (e ∈ l.registrations ∧ e.1 ≠ fd) ∨ ∃ q, (fd, q) ∈ l.registrations ∧ e = (fd, q.taken m) := by
  rw [registrations_collect, mem_update]

theorem Inv.dispatch_ready (h : Inv l) (hm : (fd, r) ∈ l.registrations) (hr : readyMask r mask ≠ {}) :
    l.dispatchIoEvent fd mask = l.collect fd r (getEventMask (readyMask r mask)) := by
  rw [dispatchIoEvent_eq (h.find_of_mem hm), if_neg hr]
  unfold collect update note
  simp only [map_map]
  congr 1
  refine map_congr_left fun d _ => ?_
  by_cases hd : d.1 = fd
  · simp [hd, Registration.taken]
  · simp [hd]

/-- In the course of an iteration: what is left to be dispatched has not been collected, and no
listener has been called. -/
structure Collecting (l : QuicPollEventLoop) (fds : List SocketFd) : Prop where
  inv : Inv l
  left : ∀ x ∈ l.readyList, x.fd ∉ fds
  called : ∀ n ∈ thisIteration l.log, ∀ q, n.calls q = false
  collected : ∀ n ∈ thisIteration l.log, ∀ q, n.collects q = true → q ∈ l.readyList.map ReadyListEntry.registration

structure Dispatch (revents : SocketFd → PollMask) (fds : List SocketFd) (l l' : QuicPollEventLoop) : Prop where
  kept : l.readyList ⊆ l'.readyList
  fds_eq : l'.registrations.map Prod.fst = l.registrations.map Prod.fst
  others : ∀ e : SocketFd × Registration, e.1 ∉ fds → (e ∈ l'.registrations ↔ e ∈ l.registrations)
  cleared : ∀ e ∈ l'.registrations, e.1 ∈ fds → e.2.artificiallyNotifyAtNextIteration = {}
  collected : ∀ e ∈ l.registrations, e.1 ∈ fds → ∀ k, e.2.artificiallyNotifyAtNextIteration.has k = true ∨
    (e.2.events.has k = true ∧ (getEventMask (revents e.1)).has k = true) →
    ∃ x ∈ l'.readyList, x.registration = e.2.id ∧ x.events.has k = true

theorem Collecting.collect {fds : List SocketFd} {mask : PollMask} (h : Collecting l (fd :: fds)) (hn : fd ∉ fds)
    (hm : (fd, r) ∈ l.registrations) : Collecting (l.collect fd r (getEventMask (readyMask r mask))) fds := by
  have ht := h.inv.fits _ hm
  have hnew : r.id ∉ l.readyList.map ReadyListEntry.registration := by
    intro hx
    obtain ⟨x, hx, hid⟩ := mem_map.1 hx
    have hfd := (h.inv.ready x hx _ hm hid.symm).1
    exact h.left x hx (hfd ▸ mem_cons_self)
  have hj : Justified (.collected r.id (getEventMask (readyMask r mask))) l.log := by
    refine ⟨fun n hn' => ?_, fun k => ht.wanted⟩
    by_contra hc
    rw [Bool.not_eq_false] at hc
    exact hnew (h.collected n hn' r.id hc)
  have hlog : thisIteration (l.collect fd r (getEventMask (readyMask r mask))).log =
      .collected r.id (getEventMask (readyMask r mask)) :: thisIteration l.log :=
    thisIteration_cons nofun
  have hi := h.inv.touch (f := fun q => q.taken (getEventMask (readyMask r mask)))
    (p := l.hasArtificialEventsPending) hm (fun _ => rfl) rfl (fun _ => rfl) hj (ht.collected mask) id
    fun hne => absurd rfl hne
  have hw : Waits (l.collect fd r (getEventMask (readyMask r mask))).log
      ⟨fd, r.id, getEventMask (readyMask r mask)⟩ := by
    constructor <;> rw [hlog]
    · exact mem_cons_self
    · exact forall_mem_cons.2 ⟨rfl, fun n hn => h.called n hn r.id⟩
  refine ⟨hi.enqueue (e := (fd, r.taken _)) (mem_collect.2 (.inr ⟨r, hm, rfl⟩)) hw hnew, fun x hx hf => ?_, ?_, ?_⟩
  · rcases mem_append.1 hx with hx | hx
    · exact h.left x hx (mem_cons_of_mem fd hf)
    · rw [mem_singleton.1 hx] at hf
      exact hn hf
  · rw [hlog]
    exact forall_mem_cons.2 ⟨fun _ => rfl, h.called⟩
  · rw [hlog]
    refine forall_mem_cons.2 ⟨fun q hq => ?_, fun n hn' q hq => ?_⟩
    · refine mem_map.2 ⟨_, mem_append_right _ (mem_singleton.2 rfl), ?_⟩
      simpa [Note.collects] using hq
    · exact map_subset _ (subset_append_left _ _) (h.collected n hn' q hq)

theorem Inv.dispatch {revents : SocketFd → PollMask} (h : Inv l) (hm : (fd, r) ∈ l.registrations) :
    Dispatch revents [fd] l (l.dispatchIoEvent fd (revents fd)) := by
  have huniq : ∀ e ∈ l.registrations, e.1 ∈ [fd] → e = (fd, r) := fun e he hf =>
    h.eq_of_fd he hm (mem_singleton.1 hf)
  have hk := has_readyMask r (revents fd)
  by_cases hr : readyMask r (revents fd) = {}
  · obtain ⟨he, ha⟩ := h.dispatch_empty hm hr
    rw [he]
    refine ⟨fun x hx => hx, rfl, fun e _ => Iff.rfl, fun e he hf => ?_, fun e he hf k hk' => ?_⟩
    · rw [huniq e he hf]
      exact ha
    · -- then there would be something to collect
      rw [huniq e he hf, ← Bool.and_eq_true, ← Bool.or_eq_true, ← hk, hr] at hk'
      cases k <;> cases hk'
  · rw [h.dispatch_ready hm hr]
    refine ⟨subset_append_left _ _, ?_, fun e he => ?_, fun e he hf => ?_, fun e he hf k hk' => ?_⟩
    · rw [registrations_collect]
      exact map_update Prod.fst fun _ => rfl
    · refine mem_collect.trans ⟨fun hor => ?_, fun he' => .inl ⟨he', fun hf => he (mem_singleton.2 hf)⟩⟩
      rcases hor with ⟨he', -⟩ | ⟨q, -, rfl⟩
      · exact he'
      · exact absurd mem_cons_self he
    · rcases mem_collect.1 he with ⟨-, hne⟩ | ⟨q, -, rfl⟩
      · exact absurd (mem_singleton.1 hf) hne
      · rfl
    · rw [huniq e he hf] at hk' ⊢
      refine ⟨_, mem_append_right _ (mem_singleton.2 rfl), rfl, ?_⟩
      rw [hk, Bool.or_eq_true, Bool.and_eq_true]
      exact hk'

theorem Collecting.dispatch {fds : List SocketFd} (h : Collecting l (fd :: fds)) (hn : fd ∉ fds)
    (hm : (fd, r) ∈ l.registrations) : Collecting (l.dispatchIoEvent fd mask) fds := by
  by_cases hr : readyMask r mask = {}
  · rw [(h.inv.dispatch_empty hm hr).1]
    exact { h with left := fun x hx hf => h.left x hx (mem_cons_of_mem fd hf) }
  · rw [h.inv.dispatch_ready hm hr]
    exact h.collect hn hm

theorem Collecting.dispatchAll (revents : SocketFd → PollMask) : ∀ {fds : List SocketFd} {l : QuicPollEventLoop},
    Collecting l fds → fds.Nodup → fds ⊆ l.registrations.map Prod.fst →
    Collecting (l.dispatchAll fds revents) [] ∧ Dispatch revents fds l (l.dispatchAll fds revents)
  | [], l, h, _, _ => ⟨h, fun x hx => hx, rfl, fun _ _ => Iff.rfl, fun _ _ hf => absurd hf not_mem_nil,
      fun _ _ hf => absurd hf not_mem_nil⟩
  | fd :: fds, l, h, hn, hs => by
    obtain ⟨hnf, hnd⟩ := nodup_cons.1 hn
    obtain ⟨⟨fd', r⟩, hm, rfl⟩ := mem_map.1 (hs mem_cons_self)
    have h1 : Collecting (l.dispatchIoEvent fd' (revents fd')) fds := h.dispatch hnf hm
    have d₁ : Dispatch revents [fd'] l (l.dispatchIoEvent fd' (revents fd')) := h.inv.dispatch hm
    have hs1 : fds ⊆ (l.dispatchIoEvent fd' (revents fd')).registrations.map Prod.fst := by
      rw [d₁.fds_eq]
      exact fun x hx => hs (mem_cons_of_mem _ hx)
    obtain ⟨h2, d₂⟩ := h1.dispatchAll revents hnd hs1
    refine ⟨h2, fun x hx => d₂.kept (d₁.kept hx), d₂.fds_eq.trans d₁.fds_eq, fun e he => ?_, fun e he hf => ?_,
      fun e he hf k hk => ?_⟩
    · rw [mem_cons, not_or] at he
      exact (d₂.others e he.2).trans (d₁.others e (fun hf => he.1 (mem_singleton.1 hf)))
    · by_cases hf' : e.1 ∈ fds
      · exact d₂.cleared e he hf'
      · exact d₁.cleared e ((d₂.others e hf').1 he) (mem_singleton.2 ((mem_cons.1 hf).resolve_right hf'))
    · by_cases hf' : e.1 ∈ fds
      · have he1 := (d₁.others e (fun hx => hnf (mem_singleton.1 hx ▸ hf'))).2 he
        exact d₂.collected e he1 hf' k hk
      · have hfd := mem_singleton.2 ((mem_cons.1 hf).resolve_right hf')
        obtain ⟨x, hx, hid, hxk⟩ := d₁.collected e he hfd k hk
        exact ⟨x, d₂.kept hx, hid, hxk⟩

theorem mem_pollfds : fd ∈ l.pollfds ↔
    ∃ r, (fd, r) ∈ l.registrations ∧ (r.events ≠ {} ∨ r.artificiallyNotifyAtNextIteration ≠ {}) := by
  simp [pollfds]

theorem Inv.collecting (h : Inv l) (hr : l.readyList = []) : Collecting (l.note .polled) l.pollfds where
  inv := { h with
    known := fun n hn q hq => by
      rcases mem_cons.1 hn with rfl | hn
      · cases hq
      · exact h.known n hn q hq
    fits := fun e he => (h.fits e he).note nofun
    accounted := ⟨trivial, h.accounted⟩
    ready := fun x hx => by
      rw [note, hr] at hx
      cases hx }
  left x hx := by
    rw [note, hr] at hx
    cases hx
  called n hn := by
    rw [log_note, thisIteration_polled] at hn
    cases hn
  collected n hn := by
    rw [log_note, thisIteration_polled] at hn
    cases hn

theorem Inv.processIoEvents (h : Inv l) (hr : l.readyList = []) (result : Int) (revents : SocketFd → PollMask) :
    Inv (l.processIoEvents result revents) ∧ ∀ e ∈ l.registrations, ∀ k,
      e.2.artificiallyNotifyAtNextIteration.has k = true ∨
        (result ≠ 0 ∧ e.2.events.has k = true ∧ (getEventMask (revents e.1)).has k = true) →
      ∃ x ∈ (l.processIoEvents result revents).readyList, x.registration = e.2.id ∧ x.events.has k = true := by
  have hc := h.collecting hr
  unfold QuicPollEventLoop.processIoEvents
  split
  next hret =>
    refine ⟨hc.inv, fun e he k hk => ?_⟩
    rcases hk with hk | ⟨hne, -⟩
    · have ha : e.2.artificiallyNotifyAtNextIteration ≠ {} := fun ha => by rw [ha, has_empty] at hk; cases hk
      cases (h.pending e he ha).symm.trans hret.2
    · exact absurd hret.1 hne
  · have hnd : l.pollfds.Nodup := h.fds.sublist (filter_sublist.map _)
    have hsub : l.pollfds ⊆ (l.note .polled).registrations.map Prod.fst := fun fd hf => by
      obtain ⟨r, hm, -⟩ := mem_pollfds.1 hf
      exact mem_map.2 ⟨_, hm, rfl⟩
    obtain ⟨h1, d⟩ := hc.dispatchAll revents hnd hsub
    refine ⟨{ h1.inv with pending := fun e he ha => ?_ }, fun e he k hk => ?_⟩
    · -- nothing that was asked for is left
      exfalso
      by_cases hf : e.1 ∈ l.pollfds
      · exact ha (d.cleared e he hf)
      · exact hf (mem_pollfds.2 ⟨e.2, (d.others e hf).1 he, .inr ha⟩)
    · have hf : e.1 ∈ l.pollfds := by
        refine mem_pollfds.2 ⟨e.2, he, ?_⟩
        rcases hk with hk | ⟨-, hk, -⟩
        · refine .inr fun ha => ?_
          rw [ha, has_empty] at hk
          cases hk
        · refine .inl fun ha => ?_
          rw [ha, has_empty] at hk
          cases hk
      exact d.collected e he hf k (hk.imp_right And.right)

/-! ## The callbacks -/

theorem Inv.runReadyCallback {l' : QuicPollEventLoop} (h : Inv l) (hs : l.runReadyCallback = some l') : Inv l' := by
  unfold QuicPollEventLoop.runReadyCallback at hs
  cases hr : l.readyList with
  | nil =>
    rw [hr] at hs
    cases hs
  | cons x rest =>
    rw [hr] at hs
    dsimp only at hs
    have hnd := h.distinct
    rw [hr, map_cons, nodup_cons] at hnd
    have hpop : ∀ y ∈ rest, y ∈ l.readyList := fun y hy => hr ▸ mem_cons_of_mem x hy
    cases hf : l.registrations.find? fun e => decide (e.2.id = x.registration) with
    | none =>
      rw [hf] at hs
      cases hs
      exact { h with
        ready := fun y hy => h.ready y (hpop y hy), distinct := hnd.2, entries := fun y hy => h.entries y (hpop y hy) }
    | some e =>
      rw [hf] at hs
      cases hs
      have he := mem_of_find?_eq_some hf
      have hid : e.2.id = x.registration := by simpa using find?_some hf
      obtain ⟨hfd, hw⟩ := h.ready x (hr ▸ mem_cons_self) e he hid
      have ht := h.fits e he
      have hj : Justified (.called e.2.id e.2.listener x.fd x.events) l.log := by
        rw [hid]
        exact ⟨hw.collected, hw.notCalled, hid ▸ hfd ▸ ht.registered, hid ▸ ht.notRemoved⟩
      refine { h with
        known := fun n hn q hq => ?_
        fits := fun d hd => (h.fits d hd).called ..
        accounted := ⟨hj, h.accounted⟩
        ready := fun y hy d hd hdi => ?_
        distinct := hnd.2
        entries := fun y hy => h.entries y (hpop y hy) }
      · rcases mem_cons.1 hn with rfl | hn
        · exact Option.some.inj hq ▸ h.made e he
        · exact h.known n hn q hq
      · obtain ⟨hyd, hyw⟩ := h.ready y (hpop y hy) d hd hdi
        refine ⟨hyd, hyw.note nofun ?_⟩
        have hne : e.2.id ≠ y.registration := fun hey => hnd.1 (mem_map.2 ⟨y, hy, hey.symm.trans hid⟩)
        simpa [Note.calls] using hne

theorem Inv.step {l' : QuicPollEventLoop} {ev : Ev} (h : Inv l) (hs : l.step ev = some l') : Inv l' := by
  cases ev with
  | registerSocket fd m listener =>
    cases hs
    exact h.registerSocket fd m listener
  | unregisterSocket fd =>
    cases hs
    exact h.unregisterSocket fd
  | rearmSocket fd m =>
    cases hs
    exact h.rearmSocket fd m
  | artificiallyNotifyEvent fd m =>
    cases hs
    exact h.artificiallyNotifyEvent fd m
  | processIoEvents result revents =>
    obtain ⟨hr, ⟨⟩⟩ := Option.ite_none_right_eq_some.1 hs
    exact (h.processIoEvents hr result revents).1
  | runReadyCallback => exact h.runReadyCallback hs

/-! ## Entries are worked off -/

def live (l : QuicPollEventLoop) (x : ReadyListEntry) : Prop := x.registration ∈ l.registrations.map fun e => e.2.id

def Settled (x : ReadyListEntry) (since : List Note) : Prop :=
  (∃ listener, .called x.registration listener x.fd x.events ∈ since) ∨ .removed x.registration ∈ since

variable {x : ReadyListEntry}

theorem live_update (hf : ∀ q, (f q).id = q.id) (hl : l.live x) : (l.update fd f).live x := by
  unfold live
  rwa [map_update (fun e => e.2.id) fun d => hf d.2]

theorem Inv.unregisterSocket_entry (h : Inv l) (hx : x ∈ l.readyList) (hl : l.live x) (fd : SocketFd) :
    ∃ since, (l.unregisterSocket fd).1.log = since ++ l.log ∧
      (Settled x since ∨ (x ∈ (l.unregisterSocket fd).1.readyList ∧ (l.unregisterSocket fd).1.live x)) := by
  unfold QuicPollEventLoop.unregisterSocket
  cases hf : l.find fd with
  | none => exact ⟨[], rfl, .inr ⟨hx, hl⟩⟩
  | some r =>
    refine ⟨[.removed r.id], rfl, ?_⟩
    by_cases hr : r.id = x.registration
    · exact .inl (.inr (hr ▸ mem_cons_self))
    · obtain ⟨e, he, hid⟩ := mem_map.1 hl
      have hne : e.1 ≠ fd := by
        rintro rfl
        have her := h.eq_of_fd he (mem_of_find hf) rfl
        exact hr ((congrArg (fun e => e.2.id) her).symm.trans hid)
      exact .inr ⟨hx, mem_map.2 ⟨e, mem_filter.2 ⟨he, by simpa using hne⟩, hid⟩⟩

variable {l' : QuicPollEventLoop}

theorem runReadyCallback_entry (hx : x ∈ l.readyList) (hl : l.live x) (hs : l.runReadyCallback = some l') :
    ∃ since, l'.log = since ++ l.log ∧ (Settled x since ∨ (x ∈ l'.readyList ∧ l'.live x)) := by
  unfold runReadyCallback at hs
  cases hr : l.readyList with
  | nil =>
    rw [hr] at hx
    cases hx
  | cons y rest =>
    rw [hr] at hs hx
    dsimp only at hs
    cases hf : l.registrations.find? fun e => decide (e.2.id = y.registration) with
    | none =>
      rw [hf] at hs
      cases hs
      refine ⟨[], rfl, .inr ⟨?_, hl⟩⟩
      refine (mem_cons.1 hx).resolve_left fun hxy => ?_
      obtain ⟨e, he, hid⟩ := mem_map.1 hl
      have := find?_eq_none.1 hf e he
      exact this (by simpa [← hxy] using hid)
    | some e =>
      rw [hf] at hs
      cases hs
      refine ⟨[_], rfl, ?_⟩
      rcases mem_cons.1 hx with rfl | hx
      · have hid : e.2.id = x.registration := by simpa using find?_some hf
        exact .inl (.inl ⟨e.2.listener, hid ▸ mem_cons_self⟩)
      · exact .inr ⟨hx, hl⟩

variable {ev : Ev}

theorem Inv.step_entry (h : Inv l) (hx : x ∈ l.readyList) (hl : l.live x) (hs : l.step ev = some l') :
    ∃ since, l'.log = since ++ l.log ∧ (Settled x since ∨ (x ∈ l'.readyList ∧ l'.live x)) := by
  cases ev with
  | registerSocket fd m listener =>
    cases hs
    unfold QuicPollEventLoop.registerSocket
    cases l.find fd with
    | some r => exact ⟨[], rfl, .inr ⟨hx, hl⟩⟩
    | none => exact ⟨[_], rfl, .inr ⟨hx, map_subset _ (subset_append_left _ _) hl⟩⟩
  | unregisterSocket fd =>
    cases hs
    exact h.unregisterSocket_entry hx hl fd
  | rearmSocket fd m =>
    cases hs
    unfold QuicPollEventLoop.rearmSocket
    cases l.find fd with
    | none => exact ⟨[], rfl, .inr ⟨hx, hl⟩⟩
    | some r => exact ⟨[_], rfl, .inr ⟨hx, live_update (fun _ => rfl) hl⟩⟩
  | artificiallyNotifyEvent fd m =>
    cases hs
    unfold QuicPollEventLoop.artificiallyNotifyEvent
    cases l.find fd with
    | none => exact ⟨[], rfl, .inr ⟨hx, hl⟩⟩
    | some r =>
      have hu : ((l.note (.notified r.id m)).update fd fun q => { q with
          artificiallyNotifyAtNextIteration := q.artificiallyNotifyAtNextIteration.union m }).live x :=
        live_update (fun _ => rfl) hl
      exact ⟨[_], rfl, .inr ⟨hx, hu⟩⟩
  | processIoEvents result revents =>
    simp only [QuicPollEventLoop.step, Option.ite_none_right_eq_some] at hs
    rw [hs.1] at hx
    cases hx
  | runReadyCallback => exact runReadyCallback_entry hx hl hs

theorem dispatchAll_log (revents : SocketFd → PollMask) : ∀ (fds : List SocketFd) (l : QuicPollEventLoop),
    l.log <:+ (l.dispatchAll fds revents).log
  | [], l => suffix_refl l.log
  | fd :: fds, l => by
    refine List.IsSuffix.trans ?_ (dispatchAll_log revents fds (l.dispatchIoEvent fd (revents fd)))
    cases hf : l.find fd with
    | none =>
      have he : l.dispatchIoEvent fd (revents fd) = l := by rw [dispatchIoEvent, hf]
      exact Eq.subst (motive := fun m => l.log <:+ m.log) he.symm (suffix_refl l.log)
    | some r =>
      rw [dispatchIoEvent_eq hf]
      split
      · exact suffix_refl l.log
      · exact suffix_cons _ l.log

theorem step_log (hs : l.step ev = some l') : l.log <:+ l'.log := by
  cases ev with
  | processIoEvents result revents =>
    obtain ⟨-, ⟨⟩⟩ := Option.ite_none_right_eq_some.1 hs
    refine (suffix_cons .polled l.log).trans ?_
    unfold processIoEvents
    split
    · exact suffix_refl _
    · exact dispatchAll_log revents l.pollfds (l.note .polled)
  | runReadyCallback =>
    simp only [step, runReadyCallback] at hs
    split at hs
    · cases hs
    · split at hs <;> obtain rfl := Option.some.inj hs
      · exact suffix_refl l.log
      · exact suffix_cons _ l.log
  | registerSocket | unregisterSocket | rearmSocket | artificiallyNotifyEvent =>
    cases hs
    simp only [registerSocket, unregisterSocket, rearmSocket, artificiallyNotifyEvent]
    split
    · exact suffix_refl l.log
    · exact suffix_cons _ l.log

theorem run_log : ∀ {es : List Ev} {l l' : QuicPollEventLoop}, Lts.run step l es = some l' →
    l.log <:+ l'.log
  | [], l, l', hr => by
    cases hr
    exact suffix_refl l.log
  | ev :: es, l, l', hr => by
    obtain ⟨m, hm, hr⟩ := Lts.run_cons.1 hr
    exact (step_log hm).trans (run_log hr)

theorem Inv.run_entry {x : ReadyListEntry} : ∀ {es : List Ev} {l l' : QuicPollEventLoop}, Inv l → x ∈ l.readyList →
    l.live x → Lts.run QuicPollEventLoop.step l es = some l' → l'.readyList = [] →
    ∃ since, l'.log = since ++ l.log ∧ Settled x since
  | [], l, l', _, hx, _, hr, he => by
    cases hr
    rw [he] at hx
    cases hx
  | ev :: es, l, l', h, hx, hl, hr, he => by
    obtain ⟨m, hm, hr⟩ := Lts.run_cons.1 hr
    obtain ⟨since, hlog, hor⟩ := h.step_entry hx hl hm
    rcases hor with hset | ⟨hx, hl⟩
    · obtain ⟨more, hmore⟩ := run_log hr
      refine ⟨more ++ since, by rw [← hmore, hlog, append_assoc], ?_⟩
      exact hset.imp (Exists.imp fun _ => mem_append_right more) (mem_append_right more)
    · obtain ⟨more, hmore, hset⟩ := Inv.run_entry (h.step hm) hx hl hr he
      refine ⟨more ++ since, by rw [hmore, hlog, append_assoc], ?_⟩
      exact hset.imp (Exists.imp fun _ => mem_append_left since) (mem_append_left since)

/-! ## What the callers have asked for -/

end

end QuicPollEventLoop

namespace Poll

/-- The callers' side of a run: the registrations they have made, and their requests, the latest first. -/
structure Callers where
  made : Nat := 0
  current : SocketFd → Option Nat := fun _ => none
  asked : List Note := []

namespace Callers

def ask (c : Callers) (fd : SocketFd) (n : Nat → Note) : Callers :=
  { c with asked := ((c.current fd).map n).toList ++ c.asked }

def step (c : Callers) : Ev → Callers
  | .registerSocket fd events listener =>
    if (c.current fd).isSome then c
    else
      { made := c.made + 1
        current := Function.update c.current fd (some c.made)
        asked := .registered c.made fd listener events :: c.asked }
  | .unregisterSocket fd => { c.ask fd .removed with current := Function.update c.current fd none }
  | .rearmSocket fd events => c.ask fd (.rearmed · events)
  | .artificiallyNotifyEvent fd events => c.ask fd (.notified · events)
  | .processIoEvents _ _ => { c with asked := .polled :: c.asked }
  | .runReadyCallback => c

end Callers

def callers (es : List Ev) : Callers := es.foldl Callers.step {}

/-- What the loop does for its listeners is no request. -/
def Note.asks : Note → Bool
  | .collected _ _ | .called _ _ _ _ => false
  | _ => true

end Poll

namespace QuicPollEventLoop

structure Follows (c : Callers) (l : QuicPollEventLoop) : Prop where
  made : l.made = c.made
  current : ∀ fd, (l.find fd).map Registration.id = c.current fd
  asked : l.log.filter Note.asks = c.asked

section
variable {l l' : QuicPollEventLoop} {fd : SocketFd} {c : Callers} {n : Note} {ev : Ev}

theorem find_update (f : Registration → Registration) (hf : ∀ q, (f q).id = q.id) (fd' : SocketFd) :
    ((l.update fd f).find fd').map Registration.id = (l.find fd').map Registration.id := by
  unfold find update
  rw [find?_map, Option.map_map, Option.map_map, Option.map_map]
  have hp : ((fun e : SocketFd × Registration => decide (e.1 = fd')) ∘ fun e => if e.1 = fd then (e.1, f e.2) else e) =
      fun e => decide (e.1 = fd') := by
    funext e
    by_cases he : e.1 = fd <;> simp [he]
  rw [hp]
  congr 1
  funext e
  by_cases he : e.1 = fd <;> simp [he, hf]

theorem Follows.update (h : Follows c l) (fd : SocketFd) {f : Registration → Registration} (hf : ∀ q, (f q).id = q.id) :
    Follows c (l.update fd f) :=
  ⟨h.made, fun fd' => (find_update f hf fd').trans (h.current fd'), h.asked⟩

theorem Follows.note (h : Follows c l) (hn : n.asks = false) : Follows c (l.note n) :=
  ⟨h.made, h.current, (filter_cons_of_neg (by simp [hn])).trans h.asked⟩

theorem Follows.ask (h : Follows c l) {r : Registration} (hr : l.find fd = some r) {g : Nat → Note}
    (hg : ∀ r, (g r).asks = true) : Follows (c.ask fd g) (l.note (g r.id)) := by
  have hc : c.current fd = some r.id := by rw [← h.current fd, hr]; rfl
  refine ⟨h.made, h.current, ?_⟩
  simp only [Callers.ask, hc]
  exact (filter_cons_of_pos (hg r.id)).trans (congrArg _ h.asked)

theorem Follows.ask_none (h : Follows c l) (hr : l.find fd = none) (g : Nat → Note) : c.ask fd g = c := by
  have hc : c.current fd = none := by rw [← h.current fd, hr]; rfl
  simp [Callers.ask, hc]

theorem Follows.dispatchIoEvent (h : Follows c l) (fd : SocketFd) (mask : PollMask) :
    Follows c (l.dispatchIoEvent fd mask) := by
  cases hf : l.find fd with
  | none =>
    rw [QuicPollEventLoop.dispatchIoEvent, hf]
    exact h
  | some r =>
    rw [dispatchIoEvent_eq hf]
    have h1 : Follows c (l.update fd fun q => { q with artificiallyNotifyAtNextIteration := {} }) :=
      h.update fd fun _ => rfl
    split
    · exact h1
    · exact { (h1.note rfl).update fd (f := fun q => { q with events := q.events.diff _ }) fun _ => rfl with }

theorem Follows.dispatchAll (revents : SocketFd → PollMask) : ∀ (fds : List SocketFd) {l : QuicPollEventLoop},
    Follows c l → Follows c (l.dispatchAll fds revents)
  | [], _, h => h
  | fd :: fds, _, h => Follows.dispatchAll revents fds (h.dispatchIoEvent fd (revents fd))

theorem Follows.registerSocket (h : Follows c l) (m : QuicSocketEventMask) (listener : Nat) :
    Follows (c.step (.registerSocket fd m listener)) (l.registerSocket fd m listener).1 := by
  have hc := h.current fd
  unfold QuicPollEventLoop.registerSocket
  cases hf : l.find fd with
  | some r =>
    rw [Callers.step, ← hc, hf]
    exact h
  | none =>
    rw [Callers.step, ← hc, hf, if_neg (by simp), ← h.made]
    refine ⟨rfl, fun fd' => ?_, congrArg _ h.asked⟩
    have hc' := h.current fd'
    simp only [find, find?_append, find?_singleton] at hf hc' ⊢
    by_cases hfd : fd' = fd
    · subst hfd
      rw [Option.map_eq_none_iff.1 hf, Function.update_self]
      simp
    · rw [Function.update_of_ne hfd, ← hc', if_neg (by simpa using fun h => hfd h.symm), Option.or_none]

theorem Follows.unregisterSocket (h : Follows c l) :
    Follows (c.step (.unregisterSocket fd)) (l.unregisterSocket fd).1 := by
  unfold QuicPollEventLoop.unregisterSocket
  cases hf : l.find fd with
  | none =>
    have hu : Function.update c.current fd none = c.current := by
      rw [Function.update_eq_self_iff, ← h.current fd, hf]
      rfl
    rw [Callers.step, h.ask_none hf, hu]
    exact h
  | some r =>
    refine { h.ask hf (g := .removed) fun _ => rfl with current := fun fd' => ?_ }
    have hc := h.current fd'
    change _ = Function.update c.current fd none fd'
    simp only [find, find?_filter] at hc ⊢
    by_cases hfd : fd' = fd
    · subst hfd
      simp
    · rw [Function.update_of_ne hfd, ← hc]
      refine congrArg (fun p => ((l.registrations.find? p).map Prod.snd).map Registration.id) (funext fun e => ?_)
      by_cases he : e.1 = fd'
      · simp [he, hfd]
      · simp [he]

theorem Follows.step (h : Follows c l) (hs : l.step ev = some l') : Follows (c.step ev) l' := by
  cases ev with
  | registerSocket fd m listener =>
    cases hs
    exact h.registerSocket m listener
  | unregisterSocket fd =>
    cases hs
    exact h.unregisterSocket
  | rearmSocket fd m =>
    cases hs
    unfold QuicPollEventLoop.rearmSocket
    cases hf : l.find fd with
    | none =>
      rw [Callers.step, h.ask_none hf]
      exact h
    | some r =>
      exact (h.ask hf (g := (.rearmed · m)) fun _ => rfl).update fd
        (f := fun q => { q with events := q.events.union m }) fun _ => rfl
  | artificiallyNotifyEvent fd m =>
    cases hs
    unfold QuicPollEventLoop.artificiallyNotifyEvent
    cases hf : l.find fd with
    | none =>
      rw [Callers.step, h.ask_none hf]
      exact h
    | some r => exact { (h.ask hf (g := (.notified · m)) fun _ => rfl).update fd (f := fun q => { q with
        artificiallyNotifyAtNextIteration := q.artificiallyNotifyAtNextIteration.union m }) fun _ => rfl with }
  | processIoEvents result revents =>
    obtain ⟨-, rfl⟩ := by simpa only [QuicPollEventLoop.step, Option.ite_none_right_eq_some, Option.some.injEq] using hs
    have h1 : Follows (c.step (.processIoEvents result revents)) (l.note .polled) :=
      ⟨h.made, h.current, congrArg _ h.asked⟩
    unfold QuicPollEventLoop.processIoEvents
    split
    · exact h1
    · exact { h1.dispatchAll revents l.pollfds with }
  | runReadyCallback =>
    simp only [QuicPollEventLoop.step, QuicPollEventLoop.runReadyCallback] at hs
    split at hs
    · cases hs
    · split at hs <;> obtain rfl := Option.some.inj hs
      · exact { h with }
      · exact { h.note rfl with }

theorem follows_run {es : List Ev} (hr : Lts.run step {} es = some l) : Follows (callers es) l := by
  refine Lts.run_hist (I := fun es l => Follows (callers es) l) (fun es l ev l' h hs => ?_) ⟨rfl, fun _ => rfl, rfl⟩ hr
  rw [callers, foldl_append]
  exact h.step hs

end

section
variable {l : QuicPollEventLoop} {es : List Ev}

structure Delivers (es : List Ev) (l : QuicPollEventLoop) : Prop where
  /-- The history has every request of the run in its place, on the registration it was made for. -/
  asked : ∀ es₁ es₂, es = es₁ ++ es₂ → ∃ l₁, Lts.run step {} es₁ = some l₁ ∧ l₁.log <:+ l.log ∧
    l₁.log.filter Note.asks = (callers es₁).asked
  /-- What was collected was wanted, and who is called gets what was collected. -/
  accounted : Accounted l.log
  /-- An event is armed as long as it has not been collected since it was armed. -/
  armed : ∀ e ∈ l.registrations, ∀ k, e.2.events.has k = armed e.2.id k l.log
  notified : ∀ e ∈ l.registrations, ∀ k, e.2.artificiallyNotifyAtNextIteration.has k = notified e.2.id k l.log
  /-- The next iteration collects what was asked for, and what is armed and reported. -/
  collects : l.readyList = [] → ∀ result revents, ∃ l', l.step (.processIoEvents result revents) = some l' ∧
    ∀ e ∈ l.registrations, ∀ k, e.2.artificiallyNotifyAtNextIteration.has k = true ∨
      (result ≠ 0 ∧ e.2.events.has k = true ∧ (getEventMask (revents e.1)).has k = true) →
      ∃ x ∈ l'.readyList, x.registration = e.2.id ∧ x.events.has k = true
  prompt : ∀ e ∈ l.registrations, e.2.artificiallyNotifyAtNextIteration ≠ {} →
    ∀ now timeout alarm, l.computePollTimeout now timeout alarm = 0
  /-- What has been collected is delivered before the next iteration, unless the registration goes. -/
  settles : ∀ x ∈ l.readyList, l.live x → ∀ es l', Lts.run step l es = some l' → l'.readyList = [] →
    ∃ since, l'.log = since ++ l.log ∧ Settled x since

/-- **Every event goes to the registration it was armed on or asked for, once**, whatever the callbacks do to the
registrations. -/
theorem events_delivered {es : List Ev} {l : QuicPollEventLoop} (hr : Lts.run step {} es = some l) : Delivers es l := by
  have h0 : Inv {} := by
    constructor <;> simp [Accounted]
  have h : Inv l := Lts.run_inv (fun _ _ _ hi hs => hi.step hs) h0 hr
  refine ⟨?_, h.accounted, fun e he => (h.fits e he).events, fun e he => (h.fits e he).artificial,
    fun he result revents => ?_, fun e he ha now timeout alarm => ?_, fun x hx hl es l' hr he =>
      h.run_entry hx hl hr he⟩
  · rintro es₁ es₂ rfl
    obtain ⟨l₁, hr1, hr2⟩ := Lts.run_append.1 hr
    exact ⟨l₁, hr1, run_log hr2, (follows_run hr1).asked⟩
  · exact ⟨l.processIoEvents result revents, if_pos he, (h.processIoEvents he result revents).2⟩
  · simp [computePollTimeout, h.pending e he ha]

def descriptorReused : List Ev :=
  [.registerSocket 3 ⟨true, true, false⟩ 10, .registerSocket 4 ⟨true, false, false⟩ 11,
    .processIoEvents 2 fun _ => { pollIn := true, pollHup := true },
    .runReadyCallback, .rearmSocket 3 ⟨true, false, false⟩, .unregisterSocket 4,
    .registerSocket 4 ⟨true, false, false⟩ 12, .artificiallyNotifyEvent 4 ⟨false, true, false⟩,
    .runReadyCallback, .processIoEvents 0 fun _ => {}, .runReadyCallback]

theorem events_delivered_descriptorReused : ∃ l, Lts.run step {} descriptorReused = some l ∧ l.readyList = [] ∧
    l.log.filter (fun n => n.calls 0 || n.calls 1 || n.calls 2) =
      [.called 2 12 4 ⟨false, true, false⟩, .called 0 10 3 ⟨true, false, false⟩] ∧ Delivers descriptorReused l :=
  ⟨_, rfl, rfl, by decide, @events_delivered descriptorReused _ rfl⟩

end

end QuicPollEventLoop

end Quictun
