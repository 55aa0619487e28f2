import Quictun.TunnelOwner

/-!
# The dial-out sockets of a server connection

`QuictunServerConnection` from the side of the sockets it dials out with. A stream that
has authenticated gets a `StreamTarget`: a tunnel, and a socket whose connect the tunnel
waits for. The connect may end inside `ConnectAsync()` or later, and may be cancelled
before. Each stream authenticates once.
-/

namespace Quictun

open Owner List Option

namespace ServerTargets

/-- `read`: the `Read()` of `OnStreamDataAvailable()` that completes the preamble. -/
inductive Op
  | read (id : Nat)
  | startTunnelForStream (id : Nat)
deriving DecidableEq

inductive Connect
  | pending (fd : Nat)
  | ok (fd : Nat)
  | failed
deriving DecidableEq

inductive Ev
  | exec (a : Owner.Answer) (connect : Connect)
  | authenticated (id : Nat)
  | connectComplete (id : Nat) (ok : Bool)
  | owner (e : Owner.Ev)
  | destroy
deriving DecidableEq

end ServerTargets

abbrev ServerTargets := Owner ServerTargets.Op

namespace ServerTargets

open Stack

section
variable (c : ServerTargets)

def connectFailed (t : Owner.Entry) : ServerTargets :=
  (c.put t { t with socket := .failed, tunnelDisconnected := true }).closeTunnel t.id true

/-- `StartTunnelForStream()`. The tunnel has its socket before anything else can run. There is no look at
`closed_`, and the key the stream was authenticated with is in a buffer that `Close()` destroys. -/
def startTunnelForStream (id : Nat) : Connect → ServerTargets
  | .pending fd => c.addEntry { id := id, socket := .connecting fd }
  | .ok fd => (c.addEntry { id := id, socket := .connected fd }).push [.run id]
  | .failed => (c.addEntry { id := id, socket := .failed, tunnelDisconnected := true }).closeTunnel id true

def connectComplete (t : Owner.Entry) (ok : Bool) : Option ServerTargets :=
  match t.socket with
  | .connecting fd =>
    some (if ok then (c.put t { t with socket := .connected fd }).push [.run t.id] else c.connectFailed t)
  | _ => none

def exec (c : ServerTargets) (a : Owner.Answer) (connect : Connect) : Op ⊕ Owner.Op → ServerTargets
  | .inl (.read _) => c.afterWrite a
  | .inl (.startTunnelForStream id) => c.startTunnelForStream id connect
  | .inr op => Owner.exec c a op

def deliver (c : ServerTargets) : Ev → Option ServerTargets
  | .exec _ _ => none
  | .authenticated id =>
    if c.closed || id ∈ c.admitted then none else some (c.pushOwn [.read id, .startTunnelForStream id])
  | .connectComplete id ok => (c.find id).bind fun t => c.connectComplete t ok
  | .owner e => Owner.deliver c e
  -- the driver destroys connections that have closed
  | .destroy => if c.closed then some { c with entries := [], closedEntries := [], garbageAlarm := false } else none

def step : Ev → Option ServerTargets
  | .exec a connect =>
    match c.todo with
    | [] => none
    | op :: rest => some (exec { c with todo := rest } a connect op)
  | e => if c.todo = [] then deliver c e else none

def init : ServerTargets := {}

/-! ## The end of a target -/

def onStack (id : Nat) : Prop := ∃ op : Owner.Op, .inr op ∈ c.todo ∧ op.tunnel? = some id

structure OneEnd (c : ServerTargets) : Prop where
  atMostOnce : ∀ id, c.disconnectCount id ≤ 1
  running : ∀ t ∈ c.entries, c.disconnectCount t.id = 0
  ended : ∀ t ∈ c.moved, t.tunnelClosed = true ∧
    ((t.socket = .disconnected ∧ c.disconnectCount t.id = 1) ∨ (t.socket = .failed ∧ c.disconnectCount t.id = 0))
  movedOnce : (c.moved.map Owner.Entry.id).Nodup
  waiting : c.closedEntries ⊆ c.moved
  closed : c.closed = true → c.todo = [] → c.entries = []

structure Destroyed (c : ServerTargets) (e : Ev) (t : Owner.Entry) : Prop where
  byGarbage : e = .owner .collectStreamGarbage ∨ e = .destroy
  offStack : ¬ c.onStack t.id
  tunnelClosed : t.tunnelClosed = true
  socketEnded : (t.socket = .disconnected ∧ c.disconnectCount t.id = 1) ∨
    (t.socket = .failed ∧ c.disconnectCount t.id = 0)

def readFails (a : Owner.Answer) : Bool :=
  match c.todo with
  | .inl (.read _) :: _ => a.writeFails && c.connected
  | _ => false

/-- No write fails inside the `StopReading()` of a tunnel that closes or inside the `Read()` of a preamble. -/
def creditsSent : Ev → Prop
  | .exec a _ => c.stopReadingFails a = false ∧ readFails c a = false
  | _ => True

/-! ## The invariant -/

def Authenticating : Prop :=
  ∃ id, (c.todo = [.inl (.read id), .inl (.startTunnelForStream id)] ∨ c.todo = [.inl (.startTunnelForStream id)]) ∧
    c.closed = false ∧ id ∉ c.admitted

end

structure Inv (c : ServerTargets) : Prop where
  owner : Owner.Inv c
  own : c.own = [] ∨ Authenticating c

section
variable {c : ServerTargets} {a : Owner.Answer} {connect : Connect} {id : Nat} {t : Owner.Entry}

theorem Inv.startTunnelForStream (h : Owner.Popped (fun _ => False) c) (ht : c.todo = []) (hc : c.closed = false)
    (hi : id ∉ c.admitted) (connect : Connect) : Inv (c.startTunnelForStream id connect) := by
  cases connect with
  | pending fd =>
    have ha := h.addEntry (t := { id := id, socket := .connecting fd }) hc ⟨rfl, fun _ => rfl, by rintro ⟨⟩⟩ rfl hi
    exact ⟨ha.whole, .inl (by rw [Owner.own, ServerTargets.startTunnelForStream, Owner.addEntry, ht]; rfl)⟩
  | ok fd =>
    have ha := h.addEntry (t := { id := id, socket := .connected fd }) hc ⟨rfl, fun _ => rfl, by rintro ⟨⟩⟩ rfl hi
    refine ⟨(ha.pushRun mem_cons_self).whole, .inl ?_⟩
    rw [ServerTargets.startTunnelForStream, (Owner.frame_push _ _).own_eq, Owner.own, Owner.addEntry, ht]
    rfl
  | failed =>
    have ha := h.addEntry (t := { id := id, socket := .failed, tunnelDisconnected := true }) hc
      ⟨rfl, by rintro ⟨⟩, fun _ => rfl⟩ rfl hi
    refine ⟨ha.weaken.closeTunnel true, .inl ?_⟩
    rw [ServerTargets.startTunnelForStream, (Owner.frame_closeTunnel _ id true).own_eq, Owner.own, Owner.addEntry, ht]
    rfl

theorem Inv.exec {b : Op ⊕ Owner.Op} {rest : List (Op ⊕ Owner.Op)} (h : Inv c) (ht : c.todo = b :: rest)
    (hs : c.stopReadingFails a = false) (hr : readFails c a = false) :
    Inv (ServerTargets.exec (Owner.pop c rest) a connect b) := by
  cases b with
  | inr op =>
    have hcore : Owner.Core (Owner.pop c rest) := { h.owner.toCore with }
    have hf : Owner.Frame (Owner.pop c rest) (Owner.exec (Owner.pop c rest) a op) :=
      Owner.frame_exec hcore a op fun he => h.owner.entries_of_clear (he ▸ ht)
    refine ⟨h.owner.exec ht hs, .inl ?_⟩
    have hown : c.own = [] := h.own.resolve_right fun ⟨id, hsh, _⟩ => by
      rcases hsh with hsh | hsh <;> cases ht.symm.trans hsh
    rw [ServerTargets.exec, hf.own_eq]
    rwa [Owner.own, ht] at hown
  | inl w =>
    have hp : Owner.Popped (fun _ => False) (Owner.pop c rest) :=
      h.owner.popQuiet ht fun _ => rfl
    obtain ⟨id, hsh, hc, hi⟩ : Authenticating c := h.own.resolve_left fun hn => by rw [Owner.own, ht] at hn; cases hn
    rcases hsh with hsh | hsh
    · obtain ⟨rfl, rfl⟩ : w = .read id ∧ rest = [.inl (.startTunnelForStream id)] := by
        simpa using ht.symm.trans hsh
      have hw : (a.writeFails && c.connected) = false := by rwa [readFails, ht] at hr
      have he : ServerTargets.exec { c with todo := [.inl (.startTunnelForStream id)] } a connect (.inl (.read id)) =
          { c with todo := [.inl (.startTunnelForStream id)] } := by
        unfold ServerTargets.exec Owner.afterWrite
        exact if_neg (by simpa using hw)
      rw [he]
      exact ⟨hp.whole, .inr ⟨id, .inr rfl, hc, hi⟩⟩
    · obtain ⟨rfl, rfl⟩ : w = .startTunnelForStream id ∧ rest = [] := by simpa using ht.symm.trans hsh
      exact Inv.startTunnelForStream hp rfl hc hi connect

theorem Inv.connectComplete {c' : ServerTargets} {ok : Bool} (h : Inv c) (ht : c.todo = []) (hm : t ∈ c.entries)
    (he : c.connectComplete t ok = some c') : Inv c' := by
  have hp : Owner.Popped (fun _ => False) c := h.owner.idle ht
  have ho : c.own = [] := by rw [Owner.own, ht]; rfl
  have hto : t.tunnelClosed = false := hp.stacked.open_of_calm hp.calm hm
  unfold ServerTargets.connectComplete at he
  split at he
  next fd hs =>
    have hd : t.tunnelDisconnected = false := by
      by_contra hn
      rw [Bool.not_eq_false] at hn
      cases hs.symm.trans ((h.owner.ready t hm).failed hn)
    cases ok with
    | true =>
      cases he
      have hput : Owner.Popped (fun _ => False) (c.put t { t with socket := .connected fd }) :=
        hp.put hm rfl hto ⟨(h.owner.ready t hm).hasSocket, fun _ => rfl, fun hn => by cases hd.symm.trans hn⟩
      refine ⟨(hput.pushRun mem_cons_self).whole, .inl ?_⟩
      exact (frame_push _ _).own_eq.trans ho
    | false =>
      cases he
      have hput : Owner.Popped (· = t.id) (c.put t { t with socket := .failed, tunnelDisconnected := true }) :=
        hp.weaken.put hm rfl hto ⟨(h.owner.ready t hm).hasSocket, by rintro ⟨⟩, fun _ => rfl⟩
      exact ⟨hput.closeTunnel true, .inl ((frame_closeTunnel _ _ true).own_eq.trans ho)⟩
  · cases he

theorem Inv.deliver {c' : ServerTargets} {e : Ev} (h : Inv c) (ht : c.todo = []) (he : c.deliver e = some c') :
    Inv c' := by
  have hp : Owner.Popped (fun _ => False) c := h.owner.idle ht
  have ho : c.own = [] := by rw [Owner.own, ht]; rfl
  cases e with
  | exec a connect => cases he
  | authenticated id =>
    simp only [ServerTargets.deliver, ite_none_left_eq_some, Bool.or_eq_true, not_or, decide_eq_true_eq,
      Bool.not_eq_true, some.injEq] at he
    obtain ⟨⟨hc, hi⟩, rfl⟩ := he
    refine ⟨(hp.pushOwn _).whole, .inr ⟨id, .inl ?_, hc, hi⟩⟩
    rw [Owner.pushOwn, ht]
    rfl
  | connectComplete id ok =>
    obtain ⟨t, hf, he⟩ := bind_eq_some_iff.1 he
    exact h.connectComplete ht (Owner.mem_of_find hf).1 he
  | owner e =>
    have hi := h.owner.deliver ht he
    refine ⟨hi, .inl ?_⟩
    by_cases hg : e = .collectStreamGarbage
    · subst hg
      exact some.inj (ite_none_right_eq_some.1 he).2 ▸ ho
    · exact (Owner.frame_deliver he hg).own_eq.trans ho
  | destroy =>
    obtain ⟨hc, ⟨⟩⟩ := ite_none_right_eq_some.1 he
    have hn := h.owner.entries_of_closed ht hc
    have he : ({ c with entries := [], closedEntries := [], garbageAlarm := false } : ServerTargets) =
        { c with closedEntries := [], garbageAlarm := false } := by
      rw [Owner.mk.injEq]
      exact ⟨rfl, rfl, hn.symm, rfl, rfl, rfl, rfl, rfl, rfl, rfl⟩
    exact ⟨he ▸ h.owner.collect ht, .inl ho⟩

theorem Inv.step {c' : ServerTargets} {e : Ev} (h : Inv c) (hs : c.creditsSent e) (he : c.step e = some c') :
    Inv c' := by
  unfold ServerTargets.step at he
  split at he
  · split at he
    · cases he
    next ht => exact some.inj he ▸ h.exec ht hs.1 hs.2
  · split at he
    next ht => exact h.deliver ht he
    · cases he

theorem run_inv {es : List Ev} (ha : Lts.AllSteps step creditsSent init es) (hr : Lts.run step init es = some c) :
    Inv c :=
  Lts.run_inv_of (fun _ _ _ h hs he => h.step hs he) ⟨inv_init, .inl rfl⟩ ha hr

theorem Inv.oneEnd (h : Inv c) : OneEnd c where
  atMostOnce id := by
    by_cases hm : id ∈ c.entries.map Owner.Entry.id
    · obtain ⟨t, ht, rfl⟩ := mem_map.1 hm
      rw [h.owner.untouched t ht]
      exact Nat.zero_le 1
    · by_cases hv : id ∈ c.moved.map Owner.Entry.id
      · obtain ⟨t, ht, rfl⟩ := mem_map.1 hv
        obtain ⟨-, ⟨-, hd⟩ | ⟨-, hd⟩⟩ := h.owner.ended t ht
        · exact Nat.le_of_eq hd
        · exact Nat.le_trans (Nat.le_of_eq hd) (Nat.zero_le 1)
      · -- only sockets of targets are disconnected
        have h0 : c.disconnectCount id = 0 := count_eq_zero.2 fun hd => by
          obtain ⟨d, hd', rfl⟩ := mem_map.1 hd
          have ha := h.owner.ids.mem_iff.2 (h.owner.logged d hd')
          exact (mem_append.1 ha).elim hm hv
        rw [h0]
        exact Nat.zero_le 1
  running := h.owner.untouched
  ended := h.owner.ended
  movedOnce := (nodup_append.1 (h.owner.ids.nodup_iff.2 h.owner.nodup)).2.1
  waiting := h.owner.kept
  closed hc ht := h.owner.entries_of_closed ht hc

variable {i : Nat}

theorem ids_addEntry (c : ServerTargets) (t : Owner.Entry) (hi : i ∈ c.heldIds) :
    i ∈ (c.addEntry t).heldIds := List.mem_cons_of_mem _ hi

theorem ids_put {t' : Owner.Entry} (ht : t ∈ c.entries) (hid : t'.id = t.id)
    (hi : i ∈ c.heldIds) :
    i ∈ (c.put t t').heldIds := by
  rw [heldIds, map_append, mem_append] at hi ⊢
  exact hi.imp_left (mem_ids_put ht hid i).1

variable {c' : ServerTargets}

theorem ids_connectComplete {ok : Bool} (ht : t ∈ c.entries) (he : c.connectComplete t ok = some c')
    (hi : i ∈ c.heldIds) : i ∈ c'.heldIds := by
  unfold ServerTargets.connectComplete at he
  split at he
  · cases he
    split
    · exact (frame_push _ _).ids (ids_put ht rfl hi)
    · exact (frame_closeTunnel _ _ true).ids (ids_put ht rfl hi)
  · cases he

theorem ids_startTunnelForStream (hi : i ∈ c.heldIds) :
    i ∈ (c.startTunnelForStream id connect).heldIds := by
  cases connect with
  | pending fd => exact ids_addEntry c _ hi
  | ok fd => exact (frame_push _ _).ids (ids_addEntry c _ hi)
  | failed => exact (frame_closeTunnel _ _ true).ids (ids_addEntry c _ hi)

variable {e : Ev}

/-- Only the garbage alarm and the end of the connection destroy a target. -/
theorem Inv.ids_step (h : Inv c) (he : c.step e = some c') (hg : e ≠ .owner .collectStreamGarbage) (hd : e ≠ .destroy)
    (hi : i ∈ c.heldIds) : i ∈ c'.heldIds := by
  cases e with
  | exec a connect =>
    cases ht : c.todo with
    | nil =>
      rw [ServerTargets.step, ht] at he
      cases he
    | cons b rest =>
      rw [ServerTargets.step, ht] at he
      cases he
      rcases b with w | op
      · cases w with
        | read id => exact (frame_afterWrite _ a).ids hi
        | startTunnelForStream id => exact @ids_startTunnelForStream (Owner.pop c rest) connect id i hi
      · have hcore : Owner.Core (Owner.pop c rest) := { h.owner.toCore with }
        exact (frame_exec hcore a op fun hc => h.owner.entries_of_clear (hc ▸ ht)).ids hi
  | authenticated id =>
    obtain ⟨-, he⟩ := ite_none_right_eq_some.1 he
    exact some.inj (ite_none_left_eq_some.1 he).2 ▸ hi
  | connectComplete id ok =>
    obtain ⟨t, hf, he⟩ := bind_eq_some_iff.1 (ite_none_right_eq_some.1 he).2
    exact ids_connectComplete (mem_of_find hf).1 he hi
  | owner e => exact (frame_deliver (ite_none_right_eq_some.1 he).2 fun hn => hg (hn ▸ rfl)).ids hi
  | destroy => exact absurd rfl hd

theorem Inv.destroyed (h : Inv c) (he : c.step e = some c')
    (ht : t ∈ c.entries ++ c.closedEntries) (hn : t.id ∉ c'.heldIds) :
    Destroyed c e t := by
  have hby : e = .owner .collectStreamGarbage ∨ e = .destroy := by
    by_contra hne
    rw [not_or] at hne
    exact hn (h.ids_step he hne.1 hne.2 (mem_map_of_mem ht))
  have hidle : c.todo = [] := by
    rcases hby with rfl | rfl <;> exact (ite_none_right_eq_some.1 he).1
  -- an entry that is still in the map stays there, or the connection has closed and there is none
  have hcl : t ∈ c.closedEntries := by
    refine (mem_append.1 ht).resolve_left fun hm => ?_
    rcases hby with rfl | rfl
    · obtain ⟨-, he⟩ := ite_none_right_eq_some.1 he
      obtain ⟨-, ⟨⟩⟩ := ite_none_right_eq_some.1 he
      exact hn (mem_map_of_mem (mem_append_left _ hm))
    · obtain ⟨-, he⟩ := ite_none_right_eq_some.1 he
      rw [h.owner.entries_of_closed hidle (ite_none_right_eq_some.1 he).1] at hm
      cases hm
  obtain ⟨htc, hsock⟩ := h.owner.ended t (h.owner.kept hcl)
  refine ⟨hby, fun hon => ?_, htc, hsock⟩
  obtain ⟨op, ho, -⟩ := hon
  rw [hidle] at ho
  cases ho

end

/-! ## Targets of a run -/

/-- **Every dial-out socket has one end of life.** In a run in which no write fails inside the `StopReading()` of a
tunnel that closes or inside the `Read()` of a preamble. -/
theorem targets_end_once {c : ServerTargets} {es : List Ev} (ha : Lts.AllSteps step creditsSent init es)
    (hr : Lts.run step init es = some c) :
    c.OneEnd ∧ ∀ e c', c.creditsSent e → c.step e = some c' → ∀ t ∈ c.entries ++ c.closedEntries,
      t.id ∉ (c'.entries ++ c'.closedEntries).map Owner.Entry.id → c.Destroyed e t := by
  have h := run_inv ha hr
  exact ⟨h.oneEnd, fun e c' _ he t ht hn => h.destroyed he ht hn⟩

instance (c : ServerTargets) : ∀ e, Decidable (c.creditsSent e)
  | .exec a _ => inferInstanceAs (Decidable (c.stopReadingFails a = false ∧ readFails c a = false))
  | .authenticated _ | .connectComplete _ _ | .owner _ | .destroy => isTrue trivial

def quiet (n : Nat) : List Ev := List.replicate n (.exec {} .failed)

def authenticate (id : Nat) (connect : Connect) : List Ev := [.authenticated id, .exec {} .failed, .exec {} connect]

def threeTargets : List Ev :=
  authenticate 0 .failed ++ quiet 4 ++ authenticate 4 (.pending 8) ++ authenticate 8 (.pending 9) ++
    [.connectComplete 4 true, .exec { writeFails := true, gone := [4, 8] } .failed] ++ quiet 12

theorem targets_end_once_threeTargets : ∃ c, Lts.run step init threeTargets = some c ∧ c.todo = [] ∧
    c.moved.map Owner.Entry.socket = [.failed, .disconnected, .disconnected] ∧ c.OneEnd :=
  ⟨_, rfl, rfl, rfl, (@targets_end_once _ threeTargets (Lts.allSteps_of_check (by decide)) rfl).1⟩

def creditLost : List Ev :=
  authenticate 0 (.ok 8) ++ quiet 1 ++ [.owner (.tunnelEvent 0), .exec { closes := some true } .failed,
    .exec { writeFails := true, gone := [0] } .failed] ++ quiet 4

/-- `Close()` then destroys the target: its tunnel's `Close()` is on the stack and its socket is connected. -/
theorem target_destroyed_in_stopReading : ∃ c t c', Lts.run step init creditLost = some c ∧
    c.step (.exec {} .failed) = some c' ∧ c.entries = [t] ∧ c'.entries = [] ∧ c'.closedEntries = [] ∧
    t.socket = .connected 8 ∧ c.disconnectCount 0 = 0 ∧ c.onStack 0 ∧ ¬ c.Destroyed (.exec {} .failed) t := by
  refine ⟨_, _, _, rfl, rfl, rfl, rfl, rfl, rfl, rfl, ⟨.closeAfterStopReading 0 true, ?_, rfl⟩, fun h => ?_⟩
  · exact mem_cons_of_mem _ mem_cons_self
  · rcases h.byGarbage with he | he <;> cases he

end ServerTargets

end Quictun
