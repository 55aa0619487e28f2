import Quictun.PreambleFormat
import Quictun.ServerConnection
import Quictun.Stack
import Quictun.StreamSides

/-!
# Who looks after a stream

A stream that the server could still write to has somebody who will close it: the
authentication, which keeps a buffer for it, or an open tunnel. The exception is a stream
whose peer sends the FIN before the preamble is complete: `OnStreamDataAvailable()` then
erases the buffer and leaves the write side as it is.

The argument follows one stream. `view` is what the connection holds for it.
-/

namespace Quictun

open Stack List Option

namespace Server.Op

@[simp] def stream? : Op → Option Nat
  | .onStreamDataAvailable id | .read id | .afterRead id _ _ | .reject id | .eraseKeyReadBuffer id
  | .startTunnelForStream id _ _ | .connectAsync id | .onStreamGone id | .closeTunnel id _ | .stopReading id
  | .onTunnelClosed id | .resetStream id | .abort id => some id
  | .connectionClosed | .close | .closeTunnels | .clear => none

@[simp] def concerns (id : Nat) (op : Op) : Bool := op.stream? = some id

@[simp] def teardown : Op → Bool
  | .connectionClosed | .abort _ | .close | .closeTunnels | .clear | .closeTunnel _ false => true
  | _ => false

theorem stream_of_not_teardown (op : Op) (h : op.teardown = false) : ∃ i, op.stream? = some i := by
  cases op <;> first | exact ⟨_, rfl⟩ | cases h

@[simp] def plain : Op → Bool
  | .read _ | .afterRead _ _ _ | .startTunnelForStream _ _ _ | .reject _ => false
  | op => !op.teardown

def closing : Op → Bool
  | .onTunnelClosed _ | .stopReading _ => true
  | _ => false

def erasing : Op → Bool
  | .eraseKeyReadBuffer _ => true
  | _ => false

def resetting : Op → Bool
  | .resetStream _ => true
  | _ => false

end Server.Op

/-! ## One stream's share of the connection -/

open Function Server

def Decided (psk : Bytes) (transparent : Bool) (bs : Bytes) : Prop :=
  (∃ dest r, Complete psk transparent bs dest r) ∨ Refused psk transparent bs

theorem decided_iff {psk : Bytes} {transparent : Bool} {bs : Bytes} :
    examine psk transparent bs ≠ .more ↔ Decided psk transparent bs := by
  unfold Decided
  rw [← examine_reject_iff]
  simp only [← examine_accept_iff]
  cases examine psk transparent bs with
  | more | reject | accept => simp

instance (psk : Bytes) (transparent : Bool) (bs : Bytes) : Decidable (Decided psk transparent bs) :=
  decidable_of_iff _ decided_iff

structure View where
  known : Prop
  stream : Option QuictunStream
  buffer : Option Bytes
  /-- The stream has a tunnel, closed or not. -/
  tunnel : Option Bool
  ops : List Op

namespace QuictunServerConnection

def view (c : QuictunServerConnection) (id : Nat) : View where
  known := id ∈ c.ids
  stream := c.streams id
  buffer := c.keyReadBuffers id
  tunnel := (c.streamTargets id).map StreamTarget.tunnelClosed
  ops := c.todo.filter (Op.concerns id)

section
variable {c : QuictunServerConnection} {id : Nat}

theorem view_push (c : QuictunServerConnection) (id : Nat) (ops : List Op) :
    (c.push ops).view id = { c.view id with ops := ops.filter (Op.concerns id) ++ (c.view id).ops } := by
  simp only [view, push, filter_append]

theorem view_setStream_self (s : QuictunStream) : (c.setStream id s).view id = { c.view id with stream := some s } := by
  simp only [view, setStream, update_self]

theorem view_setBuffer_self (b : Option Bytes) : (c.setBuffer id b).view id = { c.view id with buffer := b } := by
  simp only [view, setBuffer, update_self]

end

end QuictunServerConnection

namespace View

/-- The stream is well looked after. `D` holds of the bytes that settle the authentication, `pending` is what it has
read and not looked at yet, if it will look at it; `owed` says that a tunnel is about to be started. -/
structure Calm (D : Bytes → Prop) (pending : Option Bytes) (owed : Bool) (v : View) : Prop where
  plain : ∀ op ∈ v.ops, op.plain = true
  known : v.buffer ≠ none ∨ v.tunnel ≠ none → v.known
  buffered : v.buffer ≠ none → v.tunnel = none ∧ has Op.closing v.ops = false
  closing : has Op.closing v.ops = true → v.tunnel ≠ some false
  erasing : has Op.erasing v.ops = true → ∀ s, v.stream = some s → s.sendOpen = false
  owned : owed = false → ∀ s, v.stream = some s → s.sendOpen = true →
    v.buffer ≠ none ∨ v.tunnel = some false ∨ has Op.resetting v.ops = true
  reading : ∀ p, pending = some p → ∀ buf s, v.buffer = some buf → v.stream = some s →
    s.readingStopped = false ∧ (s.fin = true → D (buf ++ p ++ s.readable))

end View

/-! ## Steps on other streams -/

namespace QuictunServerConnection

/-- What a step on stream `i` leaves of the connection. -/
structure Within (i : Nat) (c d : QuictunServerConnection) : Prop where
  key : d.expectedPsk = c.expectedPsk
  mode : d.transparent = c.transparent
  connected : d.connected = c.connected
  notClosed : d.closed = c.closed
  ids : d.ids = c.ids
  others : ∀ id ≠ i, d.streams id = c.streams id ∧ d.keyReadBuffers id = c.keyReadBuffers id ∧
    d.streamTargets id = c.streamTargets id
  todo : ∃ ops, d.todo = ops ++ c.todo ∧ ∀ op ∈ ops, op = .connectionClosed ∨ op.stream? = some i ∧ op.teardown = false

section
variable {c d : QuictunServerConnection} {id i : Nat} {op : Op} {ops : List Op}

theorem Within.refl (i : Nat) (c : QuictunServerConnection) : Within i c c :=
  ⟨rfl, rfl, rfl, rfl, rfl, fun _ _ => ⟨rfl, rfl, rfl⟩, [], rfl, nofun⟩

section
variable (h : Within i c d)
include h

theorem Within.push (hops : ∀ op ∈ ops, op = .connectionClosed ∨ op.stream? = some i ∧ op.teardown = false) :
    Within i c (d.push ops) := by
  obtain ⟨l, hl, hall⟩ := h.todo
  refine { h with todo := ⟨ops ++ l, ?_, fun op ho => (mem_append.1 ho).elim (hops op) (hall op)⟩ }
  rw [QuictunServerConnection.push, hl, append_assoc]

theorem Within.setStream (s : QuictunStream) : Within i c (d.setStream i s) :=
  { h with others := fun id hid => ⟨(update_of_ne hid _ _).trans (h.others id hid).1, (h.others id hid).2⟩ }

theorem Within.setBuffer (b : Option Bytes) : Within i c (d.setBuffer i b) :=
  { h with others := fun id hid =>
      ⟨(h.others id hid).1, (update_of_ne hid _ _).trans (h.others id hid).2.1, (h.others id hid).2.2⟩ }

theorem Within.setTarget (t : Option StreamTarget) (g : Nat → Option Delegate)
    (closed : List StreamTarget) (started : List Nat) : Within i c
      { d with
        streamTargets := update d.streamTargets i t
        delegates := g
        closedStreamTargets := closed
        started := started } :=
  { h with others := fun id hid =>
      ⟨(h.others id hid).1, (h.others id hid).2.1, (update_of_ne hid _ _).trans (h.others id hid).2.2⟩ }

theorem Within.forgetStream : Within i c (d.forgetStream i) :=
  { h with others := fun id hid => ⟨(update_of_ne hid _ _).trans (h.others id hid).1, (h.others id hid).2⟩ }

theorem Within.afterCall (a : Answer) (r : QuictunStream × Bool)
    (hops : ∀ op ∈ ops, op = .connectionClosed ∨ op.stream? = some i ∧ op.teardown = false) :
    Within i c (d.afterCall a i r ops) := by
  refine (h.setStream r.1).push ?_
  intro op ho
  simp only [mem_append] at ho
  rcases ho with (ho | ho) | ho
  · split at ho
    · obtain rfl := mem_singleton.1 ho
      exact .inr ⟨rfl, rfl⟩
    · cases ho
  · split at ho
    · exact .inl (mem_singleton.1 ho)
    · cases ho
  · exact hops op ho

theorem Within.closeTunnel (b : Bool) : Within i c (d.closeTunnel i b) := by
  unfold QuictunServerConnection.closeTunnel
  split
  · exact h
  · split
    · exact h
    · exact (h.setTarget _ _ _ _).push (by cases b <;> simp)

theorem Within.reset (a : Answer) : Within i c (d.reset a i) := by
  unfold QuictunServerConnection.reset
  split
  · exact h
  · exact h.afterCall a _ nofun

theorem Within.notified (r : QuictunStream × Option QuictunStream.Notice) : Within i c (d.notified i r) := by
  refine (h.setStream r.1).push ?_
  split
  · simp
  · split <;> simp
  · simp

end

theorem within_exec (a : Answer) (hop : op.stream? = some i) : Within i c (c.exec a op) := by
  have hr := Within.refl i c
  cases op <;> cases hop
  case onStreamDataAvailable =>
    simp only [exec, onStreamDataAvailable]
    split
    · exact hr
    · exact hr.push (by simp)
  case read =>
    simp only [exec, read]
    split
    · exact hr
    · exact hr.afterCall a _ (by simp)
  case afterRead data fin =>
    simp only [exec, afterRead]
    split
    · exact hr
    · split
      · exact (hr.setBuffer _).push (by simp)
      · exact (hr.setBuffer _).push (by simp)
      · split
        · exact hr.setBuffer _
        · exact (hr.setBuffer _).push (by simp)
  case reject => exact hr.reset a
  case eraseKeyReadBuffer => exact hr.setBuffer none
  case startTunnelForStream => exact (hr.setTarget _ _ _ _).push (by simp)
  case connectAsync =>
    simp only [exec]
    split
    · exact hr.push (by simp)
    · exact hr
  case onStreamGone =>
    simp only [exec, onStreamGone]
    split
    · exact hr.forgetStream
    · exact hr.forgetStream.setBuffer none
    · exact hr.forgetStream.closeTunnel false
  case closeTunnel b => exact hr.closeTunnel b
  case stopReading =>
    simp only [exec, stopReading]
    split
    · exact hr
    · exact hr.afterCall a _ nofun
  case onTunnelClosed =>
    simp only [exec, onTunnelClosed]
    split
    · exact hr
    · exact hr.setTarget _ _ _ _
  case resetStream =>
    simp only [exec]
    split
    · exact hr.reset a
    · exact hr
  case abort =>
    simp only [exec, abort]
    split
    · exact hr
    · exact hr.afterCall {} _ nofun

theorem within_deliver {e : Ev} (hd : c.deliver e = some d) : (∃ i, Within i c d) ∨ (∃ j, e = .newStream j) ∨
    (c.connected = true ∧ d = c.connectionClosed) ∨ d = c.close := by
  have hmap : ∀ {o : Option QuictunStream} {f : QuictunStream → QuictunServerConnection} {i : Nat},
      o.map f = some d → (∀ s, Within i c (f s)) → ∃ i, Within i c d := by
    intro o f i hd hf
    obtain ⟨s, -, rfl⟩ := map_eq_some_iff.1 hd
    exact ⟨i, hf s⟩
  cases e with
  | exec a => cases hd
  | newStream j => exact .inr (.inl ⟨j, rfl⟩)
  | streamFrame j | streamReset j | stopSending j | canWrite j | ack j =>
    exact .inl (hmap hd fun s => (Within.refl j c).notified _)
  | tunnelRead j n a => exact .inl (hmap hd fun s => (Within.refl j c).afterCall a _ nofun)
  | tunnelWrite j data fin k finTaken a =>
    exact .inl (hmap hd fun s => (Within.refl j c).afterCall a _ nofun)
  | closeTunnel j b =>
    cases hd
    exact .inl ⟨j, (Within.refl j c).closeTunnel b⟩
  | connectionClosed =>
    simp only [deliver] at hd
    split at hd
    · exact .inr (.inr (.inl ⟨‹_›, (some.inj hd).symm⟩))
    · cases hd
  | close => exact .inr (.inr (.inr (some.inj hd).symm))
  | collectStreamGarbage =>
    cases hd
    exact .inl ⟨0, { Within.refl 0 c with }⟩

theorem concerns_other (hi : id ≠ i) (h : op.stream? = some i) : op.concerns id = false := by
  simp only [Op.concerns, h, some.injEq, decide_eq_false_iff_not]
  exact hi.symm

theorem Within.view (h : Within i c d) (hi : id ≠ i) : d.view id = c.view id := by
  obtain ⟨ops, ht, hops⟩ := h.todo
  obtain ⟨hs, hb, hst⟩ := h.others id hi
  have hf : ops.filter (Op.concerns id) = [] := by
    apply filter_eq_nil_iff.2
    intro op ho
    rcases hops op ho with rfl | ⟨hop, -⟩
    · exact Bool.false_ne_true
    · rw [concerns_other hi hop]
      decide
  simp only [QuictunServerConnection.view, h.ids, hs, hb, hst, ht, filter_append, hf, nil_append]

end

/-! ## The connection is up, or going down -/

structure Up (D : Bytes → Prop) (c : QuictunServerConnection) : Prop where
  decides : Decided c.expectedPsk c.transparent = D
  connected : c.connected = true
  notClosed : c.closed = false
  ops : ∀ op ∈ c.todo, op.teardown = false

def Down (c : QuictunServerConnection) : Prop := c.connected = false ∨ .connectionClosed ∈ c.todo

section
variable {D : Bytes → Prop} {c : QuictunServerConnection}

theorem Up.within (h : Up D c) {i : Nat} {d : QuictunServerConnection} (hw : Within i c d) :
    Down d ∨ Up D d := by
  obtain ⟨ops, ht, hops⟩ := hw.todo
  by_cases hd : .connectionClosed ∈ d.todo
  · exact .inl (.inr hd)
  · have hdec := h.decides
    rw [← hw.key, ← hw.mode] at hdec
    refine .inr ⟨hdec, hw.connected.trans h.connected, hw.notClosed.trans h.notClosed, fun op ho => ?_⟩
    rcases mem_append.1 (ht ▸ ho) with ho' | ho'
    · rcases hops op ho' with rfl | ⟨-, htd⟩
      · exact absurd ho hd
      · exact htd
    · exact h.ops op ho'

end

end QuictunServerConnection

/-! ## Steps on the stream itself -/

namespace View

section
variable {D : Bytes → Prop} {p p' : Option Bytes} {o : Bool} {v : View}

variable {ops : List Op}

theorem Calm.push (h : Calm D p o v) (hp : ∀ op ∈ ops, op.plain = true)
    (hc : has Op.closing ops = false) (he : has Op.erasing ops = false) :
    Calm D p o { v with ops := ops ++ v.ops } where
  plain op ho := (List.mem_append.1 ho).elim (hp op) (h.plain op)
  known := h.known
  buffered hb := ⟨(h.buffered hb).1, by rw [has_append, hc, Bool.false_or]; exact (h.buffered hb).2⟩
  closing h' := h.closing (by rwa [has_append, hc, Bool.false_or] at h')
  erasing h' := h.erasing (by rwa [has_append, he, Bool.false_or] at h')
  owned ho s hs hopen := by
    rcases h.owned ho s hs hopen with hb | ht | hr
    · exact .inl hb
    · exact .inr (.inl ht)
    · exact .inr (.inr (by rw [has_append, hr, Bool.or_true]))
  reading := h.reading

theorem Calm.pop {op : Op} (h : Calm D p o { v with ops := op :: ops })
    (hop : op.resetting = false) : Calm D p o { v with ops := ops } where
  plain op' ho := h.plain op' (List.mem_cons_of_mem _ ho)
  known := h.known
  buffered hb := by
    obtain ⟨ht, hc⟩ := h.buffered hb
    rw [has_cons, Bool.or_eq_false_iff] at hc
    exact ⟨ht, hc.2⟩
  closing h' := h.closing (by rw [has_cons, h', Bool.or_true])
  erasing h' := h.erasing (by rw [has_cons, h', Bool.or_true])
  owned ho s hs hopen := by
    rcases h.owned ho s hs hopen with hb | ht | hr
    · exact .inl hb
    · exact .inr (.inl ht)
    · rw [has_cons, hop, Bool.false_or] at hr
      exact .inr (.inr hr)
  reading := h.reading

variable {s s' : QuictunStream}

section
variable (h : Calm D p o v)
include h

theorem Calm.setStream (hs : v.stream = some s) (hopen : s'.sendOpen = true → s.sendOpen = true)
    (hr : ∀ q, p' = some q → ∀ buf, v.buffer = some buf →
      s'.readingStopped = false ∧ (s'.fin = true → D (buf ++ q ++ s'.readable))) :
    Calm D p' o { v with stream := some s' } where
  plain := h.plain
  known := h.known
  buffered := h.buffered
  closing := h.closing
  erasing h' t ht := by
    cases ht
    cases hb : s'.sendOpen with
    | false => rfl
    | true =>
      have := h.erasing h' s hs
      rw [hopen hb] at this
      cases this
  owned ho t ht hb := by
    cases ht
    exact h.owned ho s hs (hopen hb)
  reading q hq buf t hbuf ht := by
    cases ht
    exact hr q hq buf hbuf

theorem Calm.tame (hs : v.stream = some s)
    (ht : s.Tame s') : Calm D p o { v with stream := some s' } := by
  refine h.setStream hs ht.opens ?_
  intro q hq buf hbuf
  obtain ⟨hstop, hfin⟩ := h.reading q hq buf s hbuf hs
  refine ⟨ht.stopped.trans hstop, fun hf => ?_⟩
  obtain ⟨hf', hread⟩ := ht.fin hf
  rw [hread]
  exact hfin hf'

theorem calm_of_silent
    (hplain : ∀ op ∈ ops, op.plain = true) (hclosing : has Op.closing ops = has Op.closing v.ops)
    {s' : Option QuictunStream}
    (hs' : ∀ s, s' = some s → s.sendOpen = false) (hr : ∀ q, p' = some q → ∀ buf s, v.buffer = some buf → s' = some s →
      s.readingStopped = false ∧ (s.fin = true → D (buf ++ q ++ s.readable))) :
    Calm D p' o { v with stream := s', ops := ops } where
  plain := hplain
  known := h.known
  buffered hb := ⟨(h.buffered hb).1, hclosing.trans (h.buffered hb).2⟩
  closing h' := h.closing (hclosing ▸ h')
  erasing _ := hs'
  owned _ s hs hopen := by
    rw [hs' s hs] at hopen
    cases hopen
  reading := hr

theorem Calm.forget : Calm D p' o { v with stream := none } :=
  calm_of_silent h h.plain rfl nofun nofun

theorem Calm.eraseBuffer (hs : ∀ s, v.stream = some s → s.sendOpen = false) :
    Calm D p' o { v with buffer := none } where
  plain := h.plain
  known hk := h.known (.inr (hk.resolve_left fun hb => hb rfl))
  buffered hb := absurd rfl hb
  closing := h.closing
  erasing _ := hs
  owned _ s hss hopen := by
    rw [hs s hss] at hopen
    cases hopen
  reading _ _ _ _ hb := by cases hb

theorem Calm.setBuffer {buf buf' : Bytes} (hb : v.buffer = some buf)
    (hr : ∀ q, p' = some q → ∀ s, v.stream = some s →
      s.readingStopped = false ∧ (s.fin = true → D (buf' ++ q ++ s.readable))) :
    Calm D p' o { v with buffer := some buf' } where
  plain := h.plain
  known _ := h.known (.inl (by rw [hb]; exact Option.some_ne_none buf))
  buffered _ := h.buffered (by rw [hb]; exact Option.some_ne_none buf)
  closing := h.closing
  erasing := h.erasing
  owned _ _ _ _ := .inl (Option.some_ne_none buf')
  reading q hq b s hbb hs := by
    cases hbb
    exact hr q hq s hs

theorem Calm.shut (ht : v.tunnel = some false)
    (hp : ∀ op ∈ ops, op.plain = true) (he : has Op.erasing ops = false)
    (hr : has Op.resetting ops = true ∨ ∀ s, v.stream = some s → s.sendOpen = false) :
    Calm D p o { v with tunnel := some true, ops := ops ++ v.ops } := by
  have hb : v.buffer = none := by
    by_contra hb
    have := (h.buffered hb).1
    rw [ht] at this
    cases this
  refine ⟨fun op ho => (mem_append.1 ho).elim (hp op) (h.plain op), fun _ => ?_, fun hb' => absurd hb hb',
    nofun, fun h' => h.erasing (by rwa [has_append, he, Bool.false_or] at h'), ?_, ?_⟩
  · exact h.known (.inr (by rw [ht]; exact some_ne_none false))
  · intro _ s hs hopen
    rcases hr with hr | hr
    · exact .inr (.inr (by rw [has_append, hr, Bool.true_or]))
    · rw [hr s hs] at hopen
      cases hopen
  · intro q _ buf s hbuf
    rw [hb] at hbuf
    cases hbuf

end

end

end View

namespace QuictunServerConnection

open View

inductive Kept (D : Bytes → Prop) (id : Nat) (c : QuictunServerConnection) : Prop
  | calm (h : (c.view id).Calm D (some []) false)
  | polling {rest : List Op} (ht : c.todo = .read id :: rest) (hb : c.keyReadBuffers id ≠ none)
      (h : ((c.pop rest).view id).Calm D (some []) false)
  | looking {data : Bytes} {fin : Bool} {rest : List Op} (ht : c.todo = .afterRead id data fin :: rest)
      (hf : fin = true → ∀ s, c.streams id = some s → s.fin = true ∧ s.readable = [])
      (h : ((c.pop rest).view id).Calm D (some data) false)
  | leaving {data : Bytes} {fin : Bool} {rest : List Op}
      (ht : c.todo = .onStreamGone id :: .afterRead id data fin :: rest) (hb : c.keyReadBuffers id ≠ none)
      (h : ((c.pop rest).view id).Calm D none false)
  | starting {leftover : Bytes} {dest : Option QuicSocketAddress} {rest : List Op}
      (ht : c.todo = .startTunnelForStream id leftover dest :: rest) (hb : c.keyReadBuffers id = none)
      (hid : id ∈ c.ids) (hc : has Op.closing ((c.pop rest).view id).ops = false)
      (h : ((c.pop rest).view id).Calm D (some []) true)
  | rejecting {rest : List Op} (ht : c.todo = .reject id :: .eraseKeyReadBuffer id :: rest)
      (h : ((c.pop rest).view id).Calm D (some []) false)

section
variable {D : Bytes → Prop} {c : QuictunServerConnection} {id : Nat}

variable {op : Op} {rest : List Op}

theorem view_pop_self (ht : c.todo = op :: rest) (hop : op.concerns id = true) :
    c.view id = { (c.pop rest).view id with ops := op :: ((c.pop rest).view id).ops } := by
  simp only [view, ht, filter_cons, hop, if_true]

theorem view_pop_other (ht : c.todo = op :: rest) (hop : op.concerns id = false) :
    c.view id = (c.pop rest).view id := by
  simp only [view, ht, filter_cons, hop, Bool.false_eq_true, if_false]

variable {ops : List Op}

theorem view_afterCall_self (a : Answer) (r : QuictunStream × Bool)
    (hops : ∀ op ∈ ops, op.concerns id = true) : (c.afterCall a id r ops).view id =
      { c.view id with
        stream := some r.1
        ops := (if r.2 then [.onStreamGone id] else []) ++ ops ++ (c.view id).ops } := by
  have h1 : (if r.2 then [Op.onStreamGone id] else []).filter (Op.concerns id) =
      if r.2 then [Op.onStreamGone id] else [] := by
    split <;> simp
  have h2 : (if a.connectionFails && c.connected then [Op.connectionClosed] else []).filter (Op.concerns id) = [] := by
    split <;> simp
  rw [afterCall, view_push, view_setStream_self, filter_append, filter_append, h1, h2, append_nil,
    filter_eq_self.2 hops]

theorem view_push_self (hop : op.concerns id = true) :
    (c.push [op]).view id = { c.view id with ops := [op] ++ (c.view id).ops } := by
  rw [view_push, filter_eq_self.2]
  intro op' ho
  rwa [mem_singleton.1 ho]

theorem concerns_self (h : op.stream? = some id) : op.concerns id = true := by
  simp only [Op.concerns, h, decide_true]

theorem calm_afterCall (a : Answer) (r : QuictunStream × Bool)
    (h : View.Calm D (some []) false { c.view id with stream := some r.1 }) :
    ((c.afterCall a id r []).view id).Calm D (some []) false := by
  rw [view_afterCall_self a r (by rintro _ ⟨⟩), append_nil]
  apply h.push
  · split <;> simp
  · split <;> rfl
  · split <;> rfl

theorem view_closeTunnel_self (c : QuictunServerConnection) (id : Nat) (b : Bool) :
    ((c.view id).tunnel ≠ some false ∧ c.closeTunnel id b = c) ∨
    ((c.view id).tunnel = some false ∧ (c.closeTunnel id b).view id =
      { c.view id with
        tunnel := some true
        ops := (.stopReading id :: .onTunnelClosed id :: if b then [.resetStream id] else []) ++
          (c.view id).ops }) := by
  cases ht : c.streamTargets id with
  | none => exact .inl ⟨by simp [view, ht], by simp only [closeTunnel, ht]⟩
  | some t =>
    cases hc : t.tunnelClosed with
    | true => exact .inl ⟨by simp [view, ht, hc], by simp only [closeTunnel, ht, hc, if_true]⟩
    | false =>
      right
      refine ⟨by simp [view, ht, hc], ?_⟩
      have hops : ∀ op ∈ (Op.stopReading id :: Op.onTunnelClosed id :: if b then [Op.resetStream id] else []),
          op.concerns id = true := by
        cases b <;> simp
      simp only [closeTunnel, ht, hc, Bool.false_eq_true, if_false]
      rw [view_push, filter_eq_self.2 hops]
      simp only [view, update_self, map_some]

theorem calm_closeTunnel (h : (c.view id).Calm D (some []) false) (b : Bool)
    (hb : b = true ∨ ∀ s, c.streams id = some s → s.sendOpen = false) :
    ((c.closeTunnel id b).view id).Calm D (some []) false := by
  rcases view_closeTunnel_self c id b with ⟨-, he⟩ | ⟨ht, he⟩
  · rwa [he]
  · rw [he]
    apply h.shut ht
    · cases b <;> simp
    · cases b <;> rfl
    · rcases hb with rfl | hs
      · exact .inl rfl
      · exact .inr hs

theorem view_forgetStream (c : QuictunServerConnection) (id : Nat) :
    (c.forgetStream id).view id = { c.view id with stream := none } := by
  simp only [view, forgetStream, update_self]

theorem calm_onStreamGone (h : (c.view id).Calm D (some []) false) :
    ((c.onStreamGone id).view id).Calm D (some []) false := by
  have hf : ((c.forgetStream id).view id).Calm D (some []) false := by
    rw [view_forgetStream]
    exact h.forget
  have hnone : ∀ s, (c.forgetStream id).streams id = some s → s.sendOpen = false := by
    intro s hs
    simp [forgetStream] at hs
  unfold onStreamGone
  split
  · exact hf
  · rw [view_setBuffer_self]
    exact hf.eraseBuffer hnone
  · exact calm_closeTunnel hf false (.inr hnone)

theorem calm_onTunnelClosed (h : (c.view id).Calm D (some []) false) (ht : (c.view id).tunnel ≠ some false)
    (hb : (c.view id).buffer = none) : ((c.onTunnelClosed id).view id).Calm D (some []) false := by
  have he : (c.onTunnelClosed id).view id = { c.view id with tunnel := none } := by
    unfold onTunnelClosed
    cases hst : c.streamTargets id with
    | none => simp only [view, hst, map_none]
    | some t => simp only [view, update_self, map_none]
  rw [he]
  refine ⟨h.plain, fun hk => ?_, fun hb' => absurd hb hb', nofun, h.erasing, fun ho s hs hopen => ?_, h.reading⟩
  · rcases hk with hk | hk
    · exact absurd hb hk
    · exact absurd rfl hk
  · rcases h.owned ho s hs hopen with hb' | ht' | hr
    · exact absurd hb hb'
    · exact absurd ht' ht
    · exact .inr (.inr hr)

theorem kept_read (hb : c.keyReadBuffers id ≠ none) (h : (c.view id).Calm D (some []) false) (a : Answer) :
    Down (c.read a id) ∨ Kept D id (c.read a id) := by
  unfold read
  split
  next => exact .inr (.calm h)
  next s hs =>
    have hstop := s.read_stopped kKeyReadSize
    have hcut := s.read_fin kKeyReadSize
    have hend := s.read_ended kKeyReadSize
    have hopen := (s.onward_read kKeyReadSize).opens
    generalize s.read kKeyReadSize = r at *
    obtain ⟨data, fin, s', gone⟩ := r
    by_cases hf : (a.connectionFails && c.connected) = true
    · left
      right
      simp [afterCall, push, hf]
    · right
      have hview : ((c.setStream id s').view id).Calm D (some data) false := by
        rw [view_setStream_self]
        refine h.setStream hs hopen ?_
        rintro _ ⟨⟩ buf hbuf
        obtain ⟨hst, hfin⟩ := h.reading [] rfl buf s hbuf hs
        refine ⟨hstop.trans hst, fun hff => ?_⟩
        obtain ⟨hsf, hcut⟩ := hcut hff
        have hdec := hfin hsf
        rwa [append_nil, ← hcut, ← append_assoc] at hdec
      cases gone with
      | false =>
        have ht : (c.afterCall a id (s', false) [.afterRead id data fin]).todo = .afterRead id data fin :: c.todo := by
          simp [afterCall, push, setStream, hf]
        refine .looking ht ?_ hview
        intro hfin t ht
        obtain rfl : s' = t := by simpa [afterCall, push, setStream] using ht
        exact hend hfin
      | true =>
        have ht : (c.afterCall a id (s', true) [.afterRead id data fin]).todo =
            .onStreamGone id :: .afterRead id data fin :: c.todo := by
          simp [afterCall, push, setStream, hf]
        exact .leaving ht hb { hview with reading := nofun }

variable {data : Bytes} {fin : Bool}

theorem kept_afterRead (hup : Up D c)
    (hf : fin = true → ∀ s, c.streams id = some s → s.fin = true ∧ s.readable = [])
    (h : (c.view id).Calm D (some data) false) : Kept D id (c.afterRead id data fin) := by
  have hread : ∀ buf, c.keyReadBuffers id = some buf → ∀ q, some [] = some q → ∀ s, c.streams id = some s →
      s.readingStopped = false ∧ (s.fin = true → D (buf ++ data ++ q ++ s.readable)) := by
    intro buf hb q hq s hs
    cases hq
    rw [append_nil]
    exact h.reading data rfl buf s hb hs
  unfold afterRead
  split
  next hb =>
    refine .calm { h with reading := fun _ _ buf s hbuf => ?_ }
    rw [show (c.view id).buffer = none from hb] at hbuf
    cases hbuf
  next buf hb =>
    split
    next =>
      have hv := h.setBuffer hb (hread buf hb)
      refine .rejecting rfl ?_
      rw [← view_setBuffer_self] at hv
      exact hv
    next leftover dest =>
      have hb' : (c.view id).buffer ≠ none := by
        rw [show (c.view id).buffer = some buf from hb]
        exact some_ne_none buf
      have hv : View.Calm D (some []) true { c.view id with buffer := none } :=
        ⟨h.plain, fun hk => h.known (.inl hb'), fun hb => absurd rfl hb, h.closing, h.erasing, by rintro ⟨⟩,
          fun _ _ _ _ hb => (by cases hb)⟩
      rw [← view_setBuffer_self] at hv
      exact .starting rfl (update_self id _ _) (h.known (.inl hb')) (h.buffered hb').2 hv
    next he =>
      split
      next hempty =>
        obtain rfl := isEmpty_iff.1 hempty
        rw [append_nil] at he
        apply Kept.calm
        rw [view_setBuffer_self]
        cases fin with
        | false =>
          have hv := h.setBuffer hb (hread buf hb)
          rwa [append_nil] at hv
        | true =>
          apply h.eraseBuffer
          intro s hs
          -- the whole preamble was there when the FIN came
          obtain ⟨hfin, hempty⟩ := hf rfl s hs
          have hd := (h.reading [] rfl buf s hb hs).2 hfin
          rw [hempty, append_nil, append_nil, ← hup.decides] at hd
          exact absurd he (decided_iff.2 hd)
      next =>
        have hv := h.setBuffer hb (hread buf hb)
        rw [← view_setBuffer_self] at hv
        exact .polling rfl (by simp [push, setBuffer]) hv

theorem kept_startTunnelForStream {leftover : Bytes} {dest : Option QuicSocketAddress}
    (hb : c.keyReadBuffers id = none) (hid : id ∈ c.ids) (hc : has Op.closing (c.view id).ops = false)
    (h : (c.view id).Calm D (some []) true) :
    ((c.startTunnelForStream id leftover dest).view id).Calm D (some []) false := by
  have hv : View.Calm D (some []) false { c.view id with tunnel := some false } :=
    ⟨h.plain, fun _ => hid, fun hb' => absurd hb hb', fun h' => (by rw [hc] at h'; cases h'), h.erasing,
      fun _ _ _ _ => .inr (.inl rfl), h.reading⟩
  have he : (c.startTunnelForStream id leftover dest).view id =
      { c.view id with tunnel := some false, ops := [.connectAsync id] ++ (c.view id).ops } := by
    rw [startTunnelForStream, view_push_self (concerns_self rfl)]
    simp only [view, update_self, map_some]
  rw [he]
  exact hv.push (by simp) rfl rfl

theorem calm_reset {v : View} (h : v.Calm D (some []) false) (hv : c.view id = { v with ops := ops })
    (hplain : ∀ op ∈ ops, op.plain = true) (hclosing : has Op.closing ops = has Op.closing v.ops) (a : Answer) :
    ((c.reset a id).view id).Calm D (some []) false := by
  have hstream : c.streams id = v.stream := congrArg View.stream hv
  unfold reset
  split
  next hs =>
    rw [hs] at hstream
    have he : c.view id = { v with stream := none, ops := ops } := by rw [hv, hstream]
    rw [he]
    exact calm_of_silent h hplain hclosing nofun nofun
  next s hs =>
    rw [view_afterCall_self a _ (by rintro _ ⟨⟩), hv, append_nil]
    have hops : ∀ l : List Op, l = [] ∨ l = [.onStreamGone id] →
        (∀ op ∈ l ++ ops, op.plain = true) ∧ has Op.closing (l ++ ops) = has Op.closing v.ops := by
      rintro l (rfl | rfl)
      · exact ⟨hplain, hclosing⟩
      · refine ⟨fun op ho => ?_, hclosing⟩
        rcases mem_cons.1 ho with rfl | ho
        · rfl
        · exact hplain op ho
    have hl := hops (if s.reset.2 then [.onStreamGone id] else []) (by split <;> simp)
    refine calm_of_silent h hl.1 hl.2 ?_ ?_
    · intro t ht
      cases ht
      exact s.reset_closes
    · intro q hq buf t hbuf ht
      cases ht
      have ht := s.tame_reset
      obtain ⟨hstop, hfin⟩ := h.reading q hq buf s hbuf (hstream.symm.trans hs)
      refine ⟨ht.stopped.trans hstop, fun hf => ?_⟩
      rw [(ht.fin hf).2]
      exact hfin (ht.fin hf).1

theorem kept_leaving (ht : c.todo = .afterRead id data fin :: rest)
    (hb : c.keyReadBuffers id ≠ none) (h : ((c.pop rest).view id).Calm D none false) :
    Kept D id (c.onStreamGone id) := by
  have htunnel : (c.view id).tunnel = none := (h.buffered hb).1
  have hf : ({ c.forgetStream id with todo := rest }.view id).Calm D (some data) false := by
    have hv : { c.forgetStream id with todo := rest }.view id = { (c.pop rest).view id with stream := none } := by
      simp only [view, forgetStream, update_self]
    rw [hv]
    exact h.forget
  have hnone : ∀ s, (c.forgetStream id).streams id = some s → s.fin = true ∧ s.readable = [] := by
    intro s hs
    simp [forgetStream] at hs
  unfold onStreamGone
  split
  next => exact .looking ht (fun _ => hnone) hf
  next =>
    refine .looking ht (fun _ => hnone) ?_
    have hv : { (c.forgetStream id).setBuffer id none with todo := rest }.view id =
        { { c.forgetStream id with todo := rest }.view id with buffer := none } := by
      simp only [view, setBuffer, update_self]
    rw [hv]
    apply hf.eraseBuffer
    intro s hs
    simp [view, forgetStream] at hs
  next =>
    have hv : ((c.forgetStream id).view id).tunnel = none := htunnel
    rcases view_closeTunnel_self (c.forgetStream id) id false with ⟨-, he⟩ | ⟨he, -⟩
    · rw [he]
      exact .looking ht (fun _ => hnone) hf
    · rw [hv] at he
      cases he

theorem kept_exec_self (h : View.Calm D (some []) false { c.view id with ops := op :: (c.view id).ops })
    (hop : op.stream? = some id) (hcon : c.connected = true) (a : Answer) : Kept D id (c.exec a op) := by
  have hplain : op.plain = true := h.plain op mem_cons_self
  have hpop : op.resetting = false → (c.view id).Calm D (some []) false := fun hr => h.pop hr
  cases op with
  | onStreamDataAvailable i =>
    obtain rfl : i = id := some.inj hop
    have h' := hpop rfl
    simp only [exec, onStreamDataAvailable]
    split
    · exact .calm h'
    next hg =>
      simp only [Bool.or_eq_true, not_or] at hg
      refine .polling rfl ?_ h'
      intro hb
      exact hg.1.1 (by rw [show c.keyReadBuffers i = none from hb]; rfl)
  | eraseKeyReadBuffer i =>
    obtain rfl : i = id := some.inj hop
    apply Kept.calm
    show ((c.setBuffer i none).view i).Calm _ _ _
    rw [view_setBuffer_self]
    exact (hpop rfl).eraseBuffer (h.erasing rfl)
  | connectAsync i =>
    cases hop
    apply Kept.calm
    simp only [exec]
    split
    · rw [view_push_self (concerns_self rfl)]
      exact (hpop rfl).push (by simp) rfl rfl
    · exact hpop rfl
  | onStreamGone i =>
    cases hop
    exact .calm (calm_onStreamGone (hpop rfl))
  | closeTunnel i b =>
    cases hop
    cases b with
    | true => exact .calm (calm_closeTunnel (hpop rfl) true (.inl rfl))
    | false => cases hplain
  | stopReading i =>
    obtain rfl : i = id := some.inj hop
    apply Kept.calm
    simp only [exec, stopReading]
    split
    next => exact hpop rfl
    next s hs =>
      apply calm_afterCall
      refine (hpop rfl).setStream hs (s.onward_stopReading _).opens ?_
      -- a stream that is still being authenticated has no tunnel to stop it
      intro q _ buf hbuf
      have hb : (c.view i).buffer ≠ none := by
        rw [hbuf]
        exact some_ne_none buf
      have := (h.buffered hb).2
      rw [has_cons] at this
      cases this
  | onTunnelClosed i =>
    cases hop
    refine .calm (calm_onTunnelClosed (hpop rfl) (h.closing rfl) ?_)
    by_contra hb
    have := (h.buffered hb).2
    rw [has_cons] at this
    cases this
  | resetStream i =>
    obtain rfl : i = id := some.inj hop
    apply Kept.calm
    have hops : ∀ op ∈ (c.view i).ops, op.plain = true := fun op ho => h.plain op (mem_cons_of_mem _ ho)
    simp only [exec, hcon, if_true]
    exact calm_reset h rfl hops rfl a
  | read | afterRead | reject | startTunnelForStream | abort => cases hplain
  | connectionClosed | close | closeTunnels | clear => cases hop

theorem kept_exec_other (h : (c.view id).Calm D (some []) false) (hcon : op.concerns id = false)
    (htd : op.teardown = false) (a : Answer) : Kept D id (c.exec a op) := by
  obtain ⟨i, hi⟩ := op.stream_of_not_teardown htd
  have hne : id ≠ i := by
    rintro rfl
    rw [concerns_self hi] at hcon
    cases hcon
  apply Kept.calm
  rwa [(within_exec a hi).view hne]

theorem exec_kept (hup : Up D c) (hk : Kept D id c) (ht : c.todo = op :: rest) (a : Answer) :
    Down ((c.pop rest).exec a op) ∨ Kept D id ((c.pop rest).exec a op) := by
  have hup' : Up D (c.pop rest) :=
    { hup with ops := fun o ho => hup.ops o (by rw [ht]; exact mem_cons_of_mem _ ho) }
  have htd : op.teardown = false := hup.ops op (by rw [ht]; exact mem_cons_self)
  cases hk with
  | calm h =>
    right
    cases hcon : op.concerns id with
    | false =>
      rw [view_pop_other ht hcon] at h
      exact kept_exec_other h hcon htd a
    | true =>
      rw [view_pop_self ht hcon] at h
      exact kept_exec_self h (of_decide_eq_true hcon) hup.connected a
  | polling ht' hb h =>
    obtain ⟨rfl, rfl⟩ := cons.inj (ht.symm.trans ht')
    exact @kept_read D (c.pop rest) id hb h a
  | looking ht' hf h =>
    obtain ⟨rfl, rfl⟩ := cons.inj (ht.symm.trans ht')
    exact .inr (kept_afterRead hup' hf h)
  | leaving ht' hb h =>
    obtain ⟨rfl, rfl⟩ := cons.inj (ht.symm.trans ht')
    exact .inr (kept_leaving rfl hb h)
  | starting ht' hb hid hc h =>
    obtain ⟨rfl, rfl⟩ := cons.inj (ht.symm.trans ht')
    exact .inr (.calm (kept_startTunnelForStream hb hid hc h))
  | @rejecting rest' ht' h =>
    obtain ⟨rfl, rfl⟩ := cons.inj (ht.symm.trans ht')
    right
    have hv := @view_pop_self { c with todo := .eraseKeyReadBuffer id :: rest' } id _ _ rfl (concerns_self rfl)
    refine .calm (calm_reset h hv ?_ rfl a)
    exact forall_mem_cons.2 ⟨rfl, h.plain⟩

/-! ## What comes in between callbacks -/

theorem calm_notified (r : QuictunStream × Option QuictunStream.Notice)
    (h : View.Calm D (some []) false { c.view id with stream := some r.1 }) :
    Kept D id (c.notified id r) := by
  apply Kept.calm
  unfold notified
  rw [view_push, view_setStream_self]
  have hops : ∀ l : List Op, l = [] ∨ l = [.onStreamGone id] ∨ l = [.onStreamDataAvailable id] →
      View.Calm D (some []) false
        { c.view id with stream := some r.1, ops := l.filter (Op.concerns id) ++ (c.view id).ops } := by
    rintro l (rfl | rfl | rfl)
    · exact h
    · rw [filter_cons, if_pos (concerns_self rfl)]
      exact h.push (by simp) rfl rfl
    · rw [filter_cons, if_pos (concerns_self rfl)]
      exact h.push (by simp) rfl rfl
  apply hops
  split
  · exact .inr (.inl rfl)
  · split
    · exact .inr (.inr rfl)
    · exact .inl rfl
  · exact .inl rfl

/-- The FIN comes in on a stream whose preamble is not decided with it. -/
def finTooEarly (c : QuictunServerConnection) : Ev → Bool
  | .streamFrame id bs true =>
    match c.keyReadBuffers id, c.streams id with
    | some buf, some s => !decide (Decided c.expectedPsk c.transparent (buf ++ s.readable ++ bs))
    | _, _ => false
  | _ => false

/-- A tunnel closes without a reset although it has not written its FIN. -/
def closesUnfinished (c : QuictunServerConnection) : Ev → Bool
  | .closeTunnel id false => (c.streams id).any QuictunStream.sendOpen
  | _ => false

variable {s : QuictunStream}

theorem calm_streamFrame (hup : Up D c) (h : (c.view id).Calm D (some []) false)
    (hs : c.streams id = some s) {bs : Bytes} (hcond : c.finTooEarly (.streamFrame id bs fin) = false) :
    View.Calm D (some []) false { c.view id with stream := some (s.onStreamFrame bs fin).1 } := by
  refine h.setStream hs (s.onward_onStreamFrame bs fin).opens ?_
  intro q hq buf hbuf
  obtain ⟨hstop, hfin⟩ := h.reading q hq buf s hbuf hs
  cases hq
  unfold QuictunStream.onStreamFrame
  split
  · exact ⟨hstop, hfin⟩
  · rw [hstop, if_neg (by decide)]
    refine ⟨rfl, fun hf => ?_⟩
    obtain rfl : fin = true := hf
    have hbuf' : c.keyReadBuffers id = some buf := hbuf
    simp only [finTooEarly, hbuf', hs, Bool.not_eq_false', decide_eq_true_eq] at hcond
    rw [hup.decides] at hcond
    rwa [append_nil, ← append_assoc]

theorem no_buffer_of_tunnelStream (h : (c.view id).Calm D (some []) false)
    (hs : c.tunnelStream id = some s) : c.streams id = some s ∧ (c.view id).buffer = none := by
  unfold tunnelStream at hs
  cases ht : c.streamTargets id with
  | none =>
    rw [ht] at hs
    cases hs
  | some t =>
    rw [ht, bind_some] at hs
    split at hs
    · cases hs
    · refine ⟨hs, ?_⟩
      by_contra hb
      have := (h.buffered hb).1
      rw [show (c.view id).tunnel = (c.streamTargets id).map StreamTarget.tunnelClosed from rfl, ht] at this
      cases this

variable {c' : QuictunServerConnection}

theorem kept_newStream (hup : Up D c) (ht : c.todo = []) (h : (c.view id).Calm D (some []) false)
    {j : Nat} (hd : c.deliver (.newStream j) = some c') : Kept D id c' := by
  by_cases hj : j ∈ c.ids
  · simp [deliver, hj] at hd
  · have hc' : c' = { c with
        ids := c.ids ++ [j]
        streams := update c.streams j (some {})
        delegates := update c.delegates j (some .owner)
        keyReadBuffers := update c.keyReadBuffers j (some [])
        todo := [.onStreamDataAvailable j] } := by
      simp only [deliver, hj, hup.connected, setStream, hup.notClosed, setBuffer, push, ht] at hd
      rw [hup.connected, hup.notClosed]
      exact (some.inj hd).symm
    apply Kept.calm
    by_cases hi : id = j
    · subst hi
      have htunnel : (c.view id).tunnel = none := by
        by_contra hne
        exact hj (h.known (.inr hne))
      have hv : c'.view id =
        ⟨id ∈ c.ids ++ [id], some {}, some [], (c.view id).tunnel, [.onStreamDataAvailable id]⟩ := by
        have hop : (Op.onStreamDataAvailable id).concerns id = true := concerns_self rfl
        simp only [hc', view, update_self, filter_cons, if_pos hop, filter_nil]
      rw [hv]
      refine ⟨?_, fun _ => ?_, fun _ => ⟨htunnel, rfl⟩, nofun, nofun, ?_, ?_⟩
      · intro op ho
        rw [mem_singleton.1 ho]
        rfl
      · exact mem_append_right _ mem_cons_self
      · exact fun _ _ _ _ => .inl (some_ne_none [])
      · intro q _ buf s _ hs
        cases hs
        exact ⟨rfl, nofun⟩
    · have hv : c'.view id = { c.view id with known := id ∈ c.ids ++ [j] } := by
        have hop : (Op.onStreamDataAvailable j).concerns id = false := concerns_other hi rfl
        simp only [hc', view, update_of_ne hi, ht, filter_cons, filter_nil, hop]
        rfl
      rw [hv]
      exact { h with known := fun hk => mem_append_left _ (h.known hk) }

variable {e : Ev}

theorem deliver_kept (hup : Up D c) (ht : c.todo = []) (h : (c.view id).Calm D (some []) false)
    (hd : c.deliver e = some c') (hfin : c.finTooEarly e = false) (hclose : c.closesUnfinished e = false) :
    Down c' ∨ Kept D id c' := by
  -- an event on another stream changes nothing here
  have hone : ∀ {i d}, Within i c d → (i = id → Kept D id d) → Down d ∨ Kept D id d := by
    intro i d hw hk
    by_cases hi : i = id
    · exact .inr (hk hi)
    · exact .inr (.calm (by rwa [hw.view (Ne.symm hi)]))
  have hnote : ∀ i s r, c.streams i = some s → s.Tame r.1 →
      Down (c.notified i r) ∨ Kept D id (c.notified i r) := by
    intro i s r hs htame
    refine hone ((Within.refl i c).notified r) ?_
    rintro rfl
    exact calm_notified r (h.tame hs htame)
  cases e with
  | exec a => cases hd
  | newStream j => exact .inr (kept_newStream hup ht h hd)
  | streamFrame j bs fin =>
    obtain ⟨s, hs, rfl⟩ := map_eq_some_iff.1 hd
    refine hone ((Within.refl j c).notified _) ?_
    rintro rfl
    exact calm_notified _ (calm_streamFrame hup h hs hfin)
  | streamReset j error =>
    obtain ⟨s, hs, rfl⟩ := map_eq_some_iff.1 hd
    exact hnote j s _ hs (s.tame_onStreamReset error)
  | stopSending j error =>
    obtain ⟨s, hs, rfl⟩ := map_eq_some_iff.1 hd
    exact hnote j s _ hs (s.tame_onStopSending error)
  | canWrite j k finTaken =>
    obtain ⟨s, hs, rfl⟩ := map_eq_some_iff.1 hd
    exact hnote j s _ hs (s.tame_onCanWrite k finTaken)
  | ack j k fin =>
    obtain ⟨s, hs, rfl⟩ := map_eq_some_iff.1 hd
    exact hnote j s _ hs (s.tame_onAck k fin)
  | tunnelRead j n a =>
    obtain ⟨s, hs, rfl⟩ := map_eq_some_iff.1 hd
    refine hone ((Within.refl j c).afterCall a _ nofun) ?_
    rintro rfl
    obtain ⟨hs', hb⟩ := no_buffer_of_tunnelStream h hs
    refine .calm (calm_afterCall a _ (h.setStream hs' (s.onward_read n).opens ?_))
    intro q _ buf hbuf
    rw [hb] at hbuf
    cases hbuf
  | tunnelWrite j data fin k finTaken a =>
    obtain ⟨s, hs, rfl⟩ := map_eq_some_iff.1 hd
    refine hone ((Within.refl j c).afterCall a _ nofun) ?_
    rintro rfl
    obtain ⟨hs', -⟩ := no_buffer_of_tunnelStream h hs
    exact .calm (calm_afterCall a _ (h.tame hs' (s.tame_writeToStream data fin k finTaken)))
  | closeTunnel j b =>
    cases hd
    refine hone ((Within.refl j c).closeTunnel b) ?_
    rintro rfl
    refine .calm (calm_closeTunnel h b ?_)
    cases b with
    | true => exact .inl rfl
    | false =>
      right
      intro s hs
      simpa [closesUnfinished, hs] using hclose
  | connectionClosed =>
    rw [deliver, if_pos hup.connected] at hd
    cases hd
    exact .inl (.inl rfl)
  | close =>
    cases hd
    left
    right
    simp [close, hup.notClosed, hup.connected, push]
  | collectStreamGarbage =>
    cases hd
    exact .inr (.calm h)

/-! ## Whole runs -/

theorem Up.deliver (h : Up D c) {e : Ev} {c' : QuictunServerConnection}
    (hd : c.deliver e = some c') : Down c' ∨ Up D c' := by
  rcases within_deliver hd with ⟨i, hw⟩ | ⟨j, rfl⟩ | ⟨-, rfl⟩ | rfl
  · exact h.within hw
  · rw [QuictunServerConnection.deliver] at hd
    split at hd
    · cases hd
    · simp only [setStream, h.notClosed, setBuffer] at hd
      cases hd
      exact .inr ⟨h.decides, h.connected, rfl, by simpa [push] using h.ops⟩
  · exact .inl (.inl rfl)
  · left
    right
    simp [QuictunServerConnection.close, h.notClosed, h.connected, push]

def Onward (c c' : QuictunServerConnection) : Prop :=
  (c.connected = false → c'.connected = false) ∧ ∃ ops, c'.todo = ops ++ c.todo

theorem onward_exec (a : Answer) (op : Op) : Onward c (c.exec a op) := by
  cases hop : op.stream? with
  | some i =>
    obtain ⟨ops, ht, -⟩ := (within_exec (c := c) a hop).todo
    exact ⟨fun h => (within_exec a hop).connected.trans h, ops, ht⟩
  | none =>
    cases op <;> cases hop
    · exact ⟨fun _ => rfl, _, rfl⟩
    · simp only [exec, close]
      split
      · exact ⟨id, [], rfl⟩
      · exact ⟨id, _, rfl⟩
    · exact ⟨id, _, rfl⟩
    · exact ⟨id, [], rfl⟩

theorem Down.exec {op : Op} {rest : List Op} (h : Down c) (ht : c.todo = op :: rest) (a : Answer) :
    Down ((c.pop rest).exec a op) := by
  obtain ⟨hc, ops, ho⟩ := @onward_exec (c.pop rest) a op
  rcases h with h | h
  · exact .inl (hc h)
  · rw [ht] at h
    rcases mem_cons.1 h with rfl | h
    · exact .inl rfl
    · right
      rw [ho]
      exact mem_append_right _ h

theorem deliver_disconnected (h : c.connected = false) (hd : c.deliver e = some c') : c'.connected = false := by
  rcases within_deliver hd with ⟨i, hw⟩ | ⟨j, rfl⟩ | ⟨hc, -⟩ | rfl
  · exact hw.connected.trans h
  · simp [deliver, h] at hd
  · rw [h] at hc
    cases hc
  · exact (@onward_exec c {} .close).1 h

theorem Kept.calm_of_idle (h : Kept D id c) (ht : c.todo = []) :
    (c.view id).Calm D (some []) false := by
  cases h with
  | calm h => exact h
  | polling ht' | looking ht' | leaving ht' | starting ht' | rejecting ht' => rw [ht] at ht'; cases ht'

def Attended (D : Bytes → Prop) (c : QuictunServerConnection) : Prop :=
  Down c ∨ (Up D c ∧ ∀ id, Kept D id c)

theorem step_attended (h : Attended D c)
    (hfin : c.finTooEarly e = false) (hclose : c.closesUnfinished e = false) (hs : c.step e = some c') :
    Attended D c' := by
  have hdeliver : c.todo = [] → c.deliver e = some c' → Attended D c' := by
    intro ht hd
    rcases h with hdown | ⟨hup, hk⟩
    · rcases hdown with hc | hm
      · exact .inl (.inl (deliver_disconnected hc hd))
      · rw [ht] at hm
        cases hm
    · rcases hup.deliver hd with hdown | hup'
      · exact .inl hdown
      · by_cases hdown : Down c'
        · exact .inl hdown
        · right
          refine ⟨hup', fun id => ?_⟩
          exact (deliver_kept hup ht ((hk id).calm_of_idle ht) hd hfin hclose).resolve_left hdown
  cases e with
  | exec a =>
    cases ht : c.todo with
    | nil =>
      simp only [step, ht] at hs
      cases hs
    | cons op rest =>
      simp only [step, ht] at hs
      cases hs
      rcases h with hdown | ⟨hup, hk⟩
      · exact .inl (hdown.exec ht a)
      · by_cases hdown : Down ((c.pop rest).exec a op)
        · exact .inl hdown
        · have hup' : Up D (c.pop rest) :=
            { hup with ops := fun o ho => hup.ops o (by rw [ht]; exact mem_cons_of_mem _ ho) }
          have htd : op.teardown = false := hup.ops op (by rw [ht]; exact mem_cons_self)
          right
          obtain ⟨i, hi⟩ := op.stream_of_not_teardown htd
          refine ⟨(hup'.within (within_exec a hi)).resolve_left hdown, fun id => ?_⟩
          exact (exec_kept hup (hk id) ht a).resolve_left hdown
  | _ =>
    simp only [step] at hs
    split at hs
    · exact hdeliver ‹_› hs
    · cases hs

theorem init_attended (psk : Bytes) (transparent : Bool) :
    Attended (Decided psk transparent) (init psk transparent) := by
  right
  refine ⟨⟨rfl, rfl, rfl, nofun⟩, fun id => .calm ?_⟩
  exact ⟨nofun, fun h => (by rcases h with h | h <;> exact absurd rfl h), fun h => absurd rfl h,
    by rintro ⟨⟩, by rintro ⟨⟩, fun _ _ h => (by cases h), fun _ _ _ _ h => (by cases h)⟩

end

def Owned (c : QuictunServerConnection) (id : Nat) : Prop :=
  c.keyReadBuffers id ≠ none ∨ ∃ t, c.streamTargets id = some t ∧ t.tunnelClosed = false

section
variable {psk : Bytes} {transparent : Bool} {c : QuictunServerConnection}

theorem Attended.owned (h : Attended (Decided psk transparent) c) (hidle : c.todo = []) (hconn : c.connected = true)
    (id : Nat) (s : QuictunStream) (hs : c.streams id = some s) (hfin : s.finBuffered = false)
    (hrst : s.rstSent = false) :
    c.Owned id := by
  rcases h with hdown | ⟨hup, hk⟩
  · rcases hdown with hc | hm
    · rw [hconn] at hc
      cases hc
    · rw [hidle] at hm
      cases hm
  · have hcalm := (hk id).calm_of_idle hidle
    have hopen : s.sendOpen = true := by rw [QuictunStream.sendOpen, hfin, hrst]; rfl
    rcases hcalm.owned rfl s hs hopen with hb | ht | hr
    · exact .inl hb
    · obtain ⟨t, ht, hc⟩ := map_eq_some_iff.1 ht
      exact .inr ⟨t, ht, hc⟩
    · simp [view, hidle] at hr

end

theorem streams_owned (psk : Bytes) (transparent : Bool) (es : List Ev) (c : QuictunServerConnection)
    (hrun : Lts.run step (init psk transparent) es = some c)
    (hsteps : Lts.AllSteps step (fun c e => c.finTooEarly e = false ∧ c.closesUnfinished e = false)
      (init psk transparent) es)
    (hidle : c.todo = []) (hconn : c.connected = true) (id : Nat) (s : QuictunStream)
    (hs : c.streams id = some s) (hfin : s.finBuffered = false) (hrst : s.rstSent = false) : c.Owned id := by
  have h : Attended (Decided psk transparent) c :=
    Lts.run_inv_of (fun c e c' h hc hs => step_attended h hc.1 hc.2 hs) (init_attended psk transparent) hsteps hrun
  exact h.owned hidle hconn id s hs hfin hrst

def keyInTwoFrames : List Ev :=
  [.newStream 4, .exec {}, .exec {}, .exec {}, .streamFrame 4 [0, 1] false, .exec {}, .exec {}, .exec {}, .exec {},
    .exec {}, .streamFrame 4 [107, 7] true, .exec {}, .exec {}, .exec {}, .exec {}, .exec {}]

theorem streams_owned_keyInTwoFrames : ∃ c, Lts.run step (init [107] false) keyInTwoFrames = some c ∧ c.Owned 4 := by
  refine ⟨_, rfl, streams_owned [107] false keyInTwoFrames _ rfl ?_ rfl rfl 4 _ rfl rfl rfl⟩
  exact Lts.allSteps_of_check (by decide +kernel)

def finFirst : List Ev :=
  [.newStream 4, .exec {}, .exec {}, .exec {}, .streamFrame 4 [] true, .exec {}, .exec {}, .exec {}]

theorem fin_first_abandoned : ∃ c s, Lts.run step (init [107] false) finFirst = some c ∧ c.todo = [] ∧
    c.connected = true ∧ c.streams 4 = some s ∧ s.finBuffered = false ∧ s.rstSent = false ∧
    c.keyReadBuffers 4 = none ∧ c.streamTargets 4 = none :=
  ⟨_, _, rfl, rfl, rfl, rfl, rfl, rfl, rfl, rfl⟩

end QuictunServerConnection

end Quictun
