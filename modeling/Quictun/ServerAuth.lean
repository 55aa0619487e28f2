import Quictun.Stack
import Quictun.ServerConnection

/-!
# The pre-tunnel phase of a server connection

The authentication loop keeps a reference into `key_read_buffers_` while it calls `Read()`.
A `Read()` that returns the FIN closes the read side; if the peer has sent `STOP_SENDING`
before, the stream closes and `OnStreamGone()` erases the entry that the loop then appends
to (`fin_after_stop_sending_dangles`). A connection that fails inside the `Read()` does the
same. In runs without such a read the bookkeeping is sound.
-/

namespace Quictun

open Stack List Option

namespace Server.Op

def deferred : Op → Bool
  | .read _ | .afterRead _ _ _ | .startTunnelForStream _ _ _ => false
  | _ => true

end Server.Op

namespace QuictunServerConnection

open Function Server

def pre (c : QuictunServerConnection) : Op → Prop
  | .read id | .afterRead id _ _ => c.keyReadBuffers id ≠ none
  | .startTunnelForStream id _ _ => c.keyReadBuffers id = none ∧ c.streams id ≠ none ∧ id ∉ c.started ∧ id ∈ c.ids
  | _ => True

structure Core (c : QuictunServerConnection) : Prop where
  disjoint : ∀ id, c.keyReadBuffers id ≠ none → c.streamTargets id = none
  buffered : ∀ id, c.keyReadBuffers id ≠ none → c.streams id ≠ none ∧ c.delegates id = some .owner
  tunneled : ∀ id t, c.streamTargets id = some t → t.tunnelClosed = false →
    c.streams id ≠ none ∧ c.delegates id = some .tunnel
  unstarted : ∀ id, c.keyReadBuffers id ≠ none → id ∉ c.started
  targets : ∀ id, c.streamTargets id ≠ none → id ∈ c.started
  once : c.started.Nodup
  known : ∀ id, c.keyReadBuffers id ≠ none ∨ id ∈ c.started → id ∈ c.ids

structure Inv (c : QuictunServerConnection) : Prop extends Core c where
  below : ∀ op ∈ c.todo.tail, op.deferred = true
  top : ∀ op, c.todo.head? = some op → c.pre op

variable {c : QuictunServerConnection} {op : Op}

theorem pre_of_deferred (h : op.deferred = true) : c.pre op := by
  cases op with
  | read | afterRead | startTunnelForStream => cases h
  | _ => trivial

section
variable {c : QuictunServerConnection}

theorem Core.stay (h : Core c) (hd : ∀ op ∈ c.todo, op.deferred = true) : Inv c where
  toCore := h
  below op ho := hd op (mem_of_mem_tail ho)
  top op ho := pre_of_deferred (hd op (mem_of_head? ho))

variable {ops : List Op}

theorem Core.pushDeferred (h : Core c) (hd : ∀ op ∈ c.todo, op.deferred = true)
    (hops : ∀ op ∈ ops, op.deferred = true) : Inv (c.push ops) := by
  refine Core.stay { h with } fun op ho => ?_
  rcases mem_append.1 ho with ho | ho
  · exact hops op ho
  · exact hd op ho

theorem Core.push {o : Op} {ops : List Op} (h : Core c) (hd : ∀ op ∈ c.todo, op.deferred = true) (ho : c.pre o)
    (hops : ∀ op ∈ ops, op.deferred = true) : Inv (c.push (o :: ops)) where
  toCore := { h with }
  below op hm := (mem_append.1 hm).elim (hops op) (hd op)
  top op hm := by
    obtain rfl : o = op := by simpa [QuictunServerConnection.push] using hm
    exact ho

theorem Core.setStream (h : Core c) (id : Nat) (s : QuictunStream) : Core (c.setStream id s) := by
  have hs : ∀ i, c.streams i ≠ none → (c.setStream id s).streams i ≠ none := by
    intro i hi
    by_cases he : i = id
    · subst he
      simp [QuictunServerConnection.setStream]
    · simpa [QuictunServerConnection.setStream, he] using hi
  exact { h with
    buffered := fun i hb => ⟨hs i (h.buffered i hb).1, (h.buffered i hb).2⟩
    tunneled := fun i t ht hc => ⟨hs i (h.tunneled i t ht hc).1, (h.tunneled i t ht hc).2⟩ }

theorem Core.setBuffer (h : Core c) {id : Nat} {b : Option Bytes} (hb : b ≠ none → c.keyReadBuffers id ≠ none) :
    Core (c.setBuffer id b) := by
  have hk : ∀ i, (c.setBuffer id b).keyReadBuffers i ≠ none → c.keyReadBuffers i ≠ none := by
    intro i hi
    by_cases he : i = id
    · subst he
      exact hb (by simpa [QuictunServerConnection.setBuffer] using hi)
    · simpa [QuictunServerConnection.setBuffer, he] using hi
  exact { h with
    disjoint := fun i hi => h.disjoint i (hk i hi)
    buffered := fun i hi => h.buffered i (hk i hi)
    unstarted := fun i hi => h.unstarted i (hk i hi)
    known := fun i hi => h.known i (hi.imp_left (hk i)) }

variable {id : Nat}

theorem Core.shutTarget (h : Core c) {t : StreamTarget} (ht : c.streamTargets id = some t) :
    Core { c with streamTargets := update c.streamTargets id (some { t with tunnelClosed := true }) } := by
  have hne : c.streamTargets id ≠ none := by simp [ht]
  refine { h with disjoint := fun i hb => ?_, tunneled := fun i t' ht' hc => ?_, targets := fun i hi => ?_ }
  · have hi : i ≠ id := fun he => hne (he ▸ h.disjoint i hb)
    simpa [hi] using h.disjoint i hb
  · by_cases he : i = id
    · subst he
      obtain rfl : { t with tunnelClosed := true } = t' := by simpa using ht'
      cases hc
    · exact h.tunneled i t' (by simpa [he] using ht') hc
  · by_cases he : i = id
    · exact he ▸ h.targets id hne
    · exact h.targets i (by simpa [he] using hi)

theorem inv_closeTunnel (h : Core c) (hd : ∀ op ∈ c.todo, op.deferred = true) (id : Nat) (b : Bool) :
    Inv (c.closeTunnel id b) := by
  unfold closeTunnel
  split
  · exact h.stay hd
  next t ht =>
    split
    · exact h.stay hd
    · refine (h.shutTarget ht).pushDeferred hd ?_
      cases b <;> simp [Op.deferred]

theorem inv_onTunnelClosed (h : Core c) (hd : ∀ op ∈ c.todo, op.deferred = true) (id : Nat) :
    Inv (c.onTunnelClosed id) := by
  unfold onTunnelClosed
  split
  · exact h.stay hd
  next t ht =>
    have hb : ∀ i, c.keyReadBuffers i ≠ none → i ≠ id := by
      intro i hi he
      have := h.disjoint i hi
      simp [he, ht] at this
    refine Core.stay { h with
      disjoint := fun i hi => ?_, buffered := fun i hi => ?_, tunneled := fun i t' ht' hc => ?_
      targets := fun i hi => ?_ } hd
    · simpa [hb i hi] using h.disjoint i hi
    · simpa [hb i hi] using h.buffered i hi
    · by_cases he : i = id
      · simp [he] at ht'
      · simpa [he] using h.tunneled i t' (by simpa [he] using ht') hc
    · by_cases he : i = id
      · simp [he] at hi
      · exact h.targets i (by simpa [he] using hi)

theorem Core.forget (h : Core c) (hb : c.keyReadBuffers id = none)
    (ht : ∀ t, c.streamTargets id = some t → t.tunnelClosed = true) : Core (c.forgetStream id) := by
  unfold forgetStream
  refine { h with buffered := fun i hi => ?_, tunneled := fun i t hi hc => ?_ }
  · have he : i ≠ id := fun he => hi (he ▸ hb)
    simpa [he] using h.buffered i hi
  · have he : i ≠ id := by
      intro he
      rw [ht t (he ▸ hi)] at hc
      cases hc
    simpa [he] using h.tunneled i t hi hc

section
variable (h : Core c) (hd : ∀ op ∈ c.todo, op.deferred = true)
include h hd

theorem inv_onStreamGone (id : Nat) : Inv (c.onStreamGone id) := by
  have hopen : c.delegates id ≠ some .tunnel → ∀ t, c.streamTargets id = some t → t.tunnelClosed = true := by
    intro hne t ht
    by_contra hc
    exact hne (h.tunneled id t ht (by simpa using hc)).2
  have hbuf : c.delegates id ≠ some .owner → c.keyReadBuffers id = none := by
    intro hne
    by_contra hb
    exact hne (h.buffered id hb).2
  unfold onStreamGone
  split
  next hdel =>
    exact (h.forget (hbuf (by simp [hdel])) (hopen (by simp [hdel]))).stay hd
  next hdel =>
    have h' : Core (c.setBuffer id none) := h.setBuffer (by simp)
    have hnone : (c.setBuffer id none).keyReadBuffers id = none := by simp [setBuffer]
    exact Core.stay { h'.forget hnone (hopen (by simp [hdel])) with } hd
  next hdel =>
    have hnone := hbuf (by simp [hdel])
    unfold closeTunnel
    split
    next ht =>
      exact (h.forget hnone fun t ht' => by cases (show c.streamTargets id = none from ht).symm.trans ht').stay hd
    next t ht =>
      split
      next hc =>
        refine (h.forget hnone fun t' ht' => ?_).stay hd
        obtain rfl : t = t' := some.inj ((show c.streamTargets id = some t from ht).symm.trans ht')
        exact hc
      · have h' := (h.shutTarget (show c.streamTargets id = some t from ht)).forget hnone fun t' ht' => by
          obtain rfl : { t with tunnelClosed := true } = t' := by simpa using ht'
          rfl
        exact h'.pushDeferred hd (by simp [Op.deferred])

theorem inv_afterCall (a : Answer) (id : Nat) (r : QuictunStream × Bool)
    (hops : ∀ op ∈ ops, op.deferred = true) : Inv (c.afterCall a id r ops) := by
  refine (h.setStream id r.1).pushDeferred hd fun op ho => ?_
  rcases mem_append.1 ho with ho | ho
  · rcases mem_append.1 ho with ho | ho
    · split at ho <;> simp_all [Op.deferred]
    · split at ho <;> simp_all [Op.deferred]
  · exact hops op ho

theorem inv_afterRead {data : Bytes} {fin : Bool}
    (hp : c.pre (.afterRead id data fin)) : Inv (c.afterRead id data fin) := by
  have hlive := h.buffered id hp
  unfold afterRead
  split
  next hb =>
    exact absurd hb hp
  next buf hb =>
    split
    · exact (h.setBuffer fun _ => hp).pushDeferred hd (by simp [Op.deferred])
    · refine (h.setBuffer (by simp)).push hd ⟨?_, hlive.1, h.unstarted id hp, h.known id (.inl hp)⟩ (by simp)
      simp [setBuffer]
    · split
      · exact (h.setBuffer fun _ => hp).stay hd
      · refine (h.setBuffer fun _ => hp).push hd ?_ (by simp)
        simp [pre, setBuffer]

theorem inv_startTunnelForStream {leftover : Bytes}
    {dest : Option QuicSocketAddress} (hp : c.pre (.startTunnelForStream id leftover dest)) :
    Inv (c.startTunnelForStream id leftover dest) := by
  obtain ⟨hb, hs, hn, hk⟩ := hp
  have hne : ∀ i, c.keyReadBuffers i ≠ none → i ≠ id := fun i hi he => hi (he ▸ hb)
  refine Core.pushDeferred { h with
    disjoint := fun i hi => ?_, buffered := fun i hi => ?_, tunneled := fun i t hi hc => ?_, unstarted := fun i hi => ?_
    targets := fun i hi => ?_, once := ?_, known := fun i hi => ?_ } hd (by simp [Op.deferred])
  · simpa [hne i hi] using h.disjoint i hi
  · simpa [hne i hi] using h.buffered i hi
  · by_cases he : i = id
    · subst he
      exact ⟨hs, by simp⟩
    · simpa [he] using h.tunneled i t (by simpa [he] using hi) hc
  · simp [hne i hi, h.unstarted i hi]
  · by_cases he : i = id
    · simp [he]
    · exact mem_append_left _ (h.targets i (by simpa [he] using hi))
  · exact nodup_append.2 ⟨h.once, by simp, fun a ha b hb he => hn (by
      rw [mem_singleton.1 hb] at he
      exact he ▸ ha)⟩
  · rcases hi with hi | hi
    · exact h.known i (.inl hi)
    · rcases mem_append.1 hi with hi | hi
      · exact h.known i (.inr hi)
      · rw [mem_singleton.1 hi]
        exact hk

theorem inv_connectionClosed : Inv c.connectionClosed := by
  refine Core.pushDeferred (c := { c with connected := false }) { h with } hd fun o ho => ?_
  simp only [mem_append, List.mem_map, mem_singleton] at ho
  rcases ho with ⟨id, -, rfl⟩ | rfl <;> rfl

theorem inv_close : Inv c.close := by
  unfold close
  split
  · exact h.stay hd
  · refine Core.pushDeferred (c := { c with closed := true }) { h with } hd ?_
    split <;> simp [Op.deferred]

theorem inv_clear : Inv c.clear :=
  Core.stay { h with
    disjoint := fun _ hb => absurd rfl hb
    buffered := fun _ hb => absurd rfl hb
    tunneled := nofun
    unstarted := fun _ hb => absurd rfl hb
    targets := fun _ ht => absurd rfl ht
    known := fun id hi => h.known id (hi.imp_left fun hb => absurd rfl hb) } hd

end

end

/-! ## Reads that close the stream -/

/-- The next step is a `Read()` of the authentication loop during which the connection fails, or which takes the
FIN of a stream whose write side is closed. -/
def readClosesStream (c : QuictunServerConnection) : Ev → Bool
  | .exec a => match c.todo with
    | .read id :: _ => (a.connectionFails && c.connected) ||
        (c.streams id).any fun s =>
          s.fin && decide (s.readable.length ≤ kKeyReadSize) && s.writeSideClosed && !s.readSideClosed
    | _ => false
  | _ => false

theorem read_gone {s : QuictunStream} {n : Nat} (h : (s.read n).2.2.2 = true) :
    s.fin = true ∧ s.readable.length ≤ n ∧ s.writeSideClosed = true ∧ s.readSideClosed = false := by
  unfold QuictunStream.read at h
  simp only at h
  split at h
  next hf =>
    simp only [Bool.and_eq_true, List.isEmpty_iff, List.drop_eq_nil_iff] at hf
    unfold QuictunStream.closeReadSide at h
    split at h
    · cases h
    next hr =>
      exact ⟨hf.1, hf.2, h, by simpa using hr⟩
  · cases h

variable {rest : List Op} {id : Nat} {a : Answer}

theorem inv_read (h : Core (c.pop rest))
    (hd : ∀ op ∈ rest, op.deferred = true) (hp : c.pre (.read id)) (ht : c.todo = .read id :: rest)
    (hc : c.readClosesStream (.exec a) = false) : Inv (read (c.pop rest) a id) := by
  rw [readClosesStream, ht] at hc
  simp only [Bool.or_eq_false_iff] at hc
  unfold read
  split
  · exact h.stay hd
  next s hs =>
    have hs : c.streams id = some s := hs
    have hng : (s.read kKeyReadSize).2.2.2 = false := by
      by_contra hg
      obtain ⟨h1, h2, h3, h4⟩ := read_gone (by simpa using hg)
      simp [hs, h1, h2, h3, h4] at hc
    simp only [afterCall, hng, hc.1]
    exact (h.setStream id _).push hd hp (by simp)

theorem exec_inv (h : Inv c) (ht : c.todo = op :: rest)
    (hc : c.readClosesStream (.exec a) = false) : Inv ((c.pop rest).exec a op) := by
  have h' : Core (c.pop rest) := { h with }
  have hd : ∀ o ∈ rest, o.deferred = true := fun o ho => h.below o (by rw [ht]; exact ho)
  have hp : c.pre op := h.top op (by rw [ht]; rfl)
  have hreset : ∀ id, Inv (reset (c.pop rest) a id) := by
    intro id
    unfold reset
    split
    · exact h'.stay hd
    · exact inv_afterCall h' hd a id _ nofun
  cases op with
  | onStreamDataAvailable id =>
    simp only [exec, onStreamDataAvailable]
    split
    · exact h'.stay hd
    next hg =>
      simp only [Bool.or_eq_true, not_or] at hg
      exact h'.push hd (fun hb => hg.1.1 (by rw [hb]; rfl)) nofun
  | read id => exact inv_read h' hd hp ht hc
  | afterRead id data fin => exact inv_afterRead h' hd hp
  | reject id => exact hreset id
  | eraseKeyReadBuffer id => exact (h'.setBuffer (by simp)).stay hd
  | startTunnelForStream id leftover dest => exact inv_startTunnelForStream h' hd hp
  | connectAsync id =>
    simp only [exec]
    split
    · exact h'.pushDeferred hd (by simp [Op.deferred])
    · exact h'.stay hd
  | onStreamGone id => exact inv_onStreamGone h' hd id
  | closeTunnel id b => exact inv_closeTunnel h' hd id b
  | stopReading id =>
    simp only [exec, stopReading]
    split
    · exact h'.stay hd
    · exact inv_afterCall h' hd a id _ nofun
  | onTunnelClosed id => exact inv_onTunnelClosed h' hd id
  | resetStream id =>
    simp only [exec]
    split
    · exact hreset id
    · exact h'.stay hd
  | connectionClosed => exact inv_connectionClosed h' hd
  | abort id =>
    simp only [exec, abort]
    split
    · exact h'.stay hd
    · exact inv_afterCall h' hd {} id _ nofun
  | close => exact inv_close h' hd
  | closeTunnels =>
    refine h'.pushDeferred hd fun o ho => ?_
    obtain ⟨id, -, rfl⟩ := mem_map.1 ho
    rfl
  | clear => exact inv_clear h' hd

/-! ## Whole runs -/

theorem inv_notified (h : Core c) (ht : c.todo = []) (id : Nat)
    (r : QuictunStream × Option QuictunStream.Notice) : Inv (c.notified id r) := by
  refine (h.setStream id r.1).pushDeferred (by simp [setStream, ht]) ?_
  split
  · simp [Op.deferred]
  · split <;> simp [Op.deferred]
  · simp

theorem Core.newStream (h : Core c) (hid : id ∉ c.ids) :
    Core ({ ({ c with ids := c.ids ++ [id] }.setStream id {}) with
      delegates := update c.delegates id (some .owner) }.setBuffer id
      (some [])) := by
  have hst : id ∉ c.started := fun hs => hid (h.known id (.inr hs))
  have hta : ∀ i, c.streamTargets i ≠ none → i ≠ id := fun i hi he => hst (he ▸ h.targets i hi)
  have hbu : ∀ i, (update c.keyReadBuffers id (some [])) i ≠ none → i ≠ id → c.keyReadBuffers i ≠ none := by
    intro i hi he
    simpa [he] using hi
  simp only [QuictunServerConnection.setBuffer, QuictunServerConnection.setStream]
  refine { h with
    disjoint := fun i hi => ?_, buffered := fun i hi => ?_, tunneled := fun i t hi hc => ?_
    unstarted := fun i hi => ?_, known := fun i hi => ?_ }
  · by_cases he : i = id
    · by_contra ht
      exact hta i ht he
    · exact h.disjoint i (hbu i hi he)
  · by_cases he : i = id
    · simp [he]
    · simpa [he] using h.buffered i (hbu i hi he)
  · have he := hta i (by simp [show c.streamTargets i = some t from hi])
    simpa [he] using h.tunneled i t hi hc
  · by_cases he : i = id
    · exact he ▸ hst
    · exact h.unstarted i (hbu i hi he)
  · by_cases he : i = id
    · simp [he]
    · exact mem_append_left _ (h.known i (hi.imp_left fun hb => hbu i hb he))

variable {c' : QuictunServerConnection} {e : Ev}

theorem deliver_inv (h : Core c) (ht : c.todo = []) (hw : c.deliver e = some c') : Inv c' := by
  have hd : ∀ op ∈ c.todo, op.deferred = true := by simp [ht]
  cases e with
  | exec a => cases hw
  | newStream id =>
    simp only [deliver] at hw
    split at hw
    · cases hw
    rename_i hg
    simp only [Bool.or_eq_true, decide_eq_true_eq, not_or] at hg
    split at hw
    · cases hw
      have h0 : Core { c with ids := c.ids ++ [id] } :=
        { h with known := fun i hi => mem_append_left _ (h.known i hi) }
      exact (h0.setStream id {}).stay hd
    · cases hw
      exact (h.newStream hg.1).pushDeferred hd (by simp [Op.deferred])
  | streamFrame id | streamReset id | stopSending id | canWrite id | ack id =>
    obtain ⟨s, -, rfl⟩ := map_eq_some_iff.1 hw
    exact inv_notified h ht id _
  | tunnelRead id _ a | tunnelWrite id _ _ _ _ a =>
    obtain ⟨s, -, rfl⟩ := map_eq_some_iff.1 hw
    exact inv_afterCall h hd a id _ nofun
  | closeTunnel id b => cases hw; exact inv_closeTunnel h hd id b
  | connectionClosed =>
    simp only [deliver] at hw
    split at hw
    · cases hw; exact inv_connectionClosed h hd
    · cases hw
  | close => cases hw; exact inv_close h hd
  | collectStreamGarbage => cases hw; exact Core.stay { h with } hd

theorem step_inv (h : Inv c) (hc : c.readClosesStream e = false) (hw : c.step e = some c') : Inv c' := by
  unfold step at hw
  split at hw
  · split at hw
    · cases hw
    next op rest ht =>
      cases hw
      exact exec_inv h ht hc
  · split at hw
    next ht =>
      exact deliver_inv h.toCore ht hw
    · cases hw

theorem init_inv (psk : Bytes) (transparent : Bool) : Inv (init psk transparent) := by
  refine Core.stay ⟨?_, ?_, ?_, ?_, ?_, ?_, ?_⟩ (by simp [init]) <;> simp [init]

/-- **The pre-tunnel phase.** In every run without a read that closes the stream under the authentication loop, the
entry the loop goes on with still exists, no stream has both a buffer and a tunnel, and a tunnel is started once
per stream at most, on a live stream. -/
theorem preTunnel_sound (psk : Bytes) (transparent : Bool) (es : List Ev) (c : QuictunServerConnection)
    (hrun : Lts.run step (init psk transparent) es = some c)
    (hc : Lts.AllSteps step (fun c e => c.readClosesStream e = false) (init psk transparent) es) :
    (∀ id data fin rest, c.todo = .afterRead id data fin :: rest → c.keyReadBuffers id ≠ none) ∧
    (∀ id, c.keyReadBuffers id = none ∨ c.streamTargets id = none) ∧
    (∀ id, c.keyReadBuffers id ≠ none → c.streams id ≠ none ∧ c.delegates id = some .owner) ∧
    (∀ id t, c.streamTargets id = some t → t.tunnelClosed = false →
      c.streams id ≠ none ∧ c.delegates id = some .tunnel) ∧
    (∀ id leftover dest rest, c.todo = .startTunnelForStream id leftover dest :: rest →
      c.streams id ≠ none ∧ c.streamTargets id = none ∧ id ∉ c.started) ∧
    c.started.Nodup := by
  have h : Inv c := Lts.run_inv_of (fun _ _ _ hi hc hw => step_inv hi hc hw) (init_inv psk transparent) hc hrun
  refine ⟨fun id data fin rest ht => ?_, fun id => ?_, h.buffered, h.tunneled, fun id leftover dest rest ht => ?_,
    h.once⟩
  · exact h.top (.afterRead id data fin) (by rw [ht]; rfl)
  · by_cases hb : c.keyReadBuffers id = none
    · exact .inl hb
    · exact .inr (h.disjoint id hb)
  · obtain ⟨-, hs, hn, -⟩ := h.top (.startTunnelForStream id leftover dest) (by rw [ht]; rfl)
    refine ⟨hs, ?_, hn⟩
    by_contra ht
    exact hn (h.targets id ht)

def keySent : List Ev :=
  [.newStream 4, .exec {}, .exec {}, .exec {}, .streamFrame 4 [0, 1, 107, 9] false, .exec {}, .exec {}, .exec {}]

theorem preTunnel_sound_keySent : ∃ c, Lts.run step (init [107] false) keySent = some c ∧
    c.todo = [.startTunnelForStream 4 [9] none] ∧ c.streams 4 ≠ none ∧ c.streamTargets 4 = none ∧ 4 ∉ c.started :=
  ⟨_, rfl, rfl, (preTunnel_sound [107] false keySent _ rfl (Lts.allSteps_of_check rfl)).2.2.2.2.1 4 [9] none [] rfl⟩

def finAfterStopSending : List Ev :=
  [.newStream 4, .exec {}, .exec {}, .exec {}, .stopSending 4 false, .streamFrame 4 [0] true, .exec {}, .exec {},
    .exec {}]

/-- The loop goes on with an entry that `OnStreamGone()` has erased. -/
theorem fin_after_stop_sending_dangles : ∃ c, Lts.run step (init [107] false) finAfterStopSending = some c ∧
    c.todo = [.afterRead 4 [0] true] ∧ c.keyReadBuffers 4 = none ∧ c.streams 4 = none :=
  ⟨_, rfl, rfl, rfl, rfl⟩

end QuictunServerConnection

end Quictun
