import Mathlib.Algebra.Order.Ring.Nat
import Mathlib.Data.Finset.Card
import Mathlib.Data.List.Nodup
import Mathlib.Logic.Function.Basic
import Quictun.PeerStream
import Quictun.Run

/-!
# Stream-count credit of a session

All peer-initiated streams of one directionality of a session. The peer may open them in any
order of their ids; each takes a place when it (or a later one) is opened and gives it back
once. Frames for streams that are gone, and zombies that still wait for acks, are part of it;
a frame that breaks a rule closes the connection.
-/

namespace Quictun

open Function QuicStreamIdManager List Option

structure CountedSession where
  accounts : Nat → Account := fun _ => {}
  manager : QuicStreamIdManager
  /-- The streams that were created, latest first (history only). -/
  opened : List Nat := []
  canSendMaxStreams : Bool := true
  connected : Bool := true

namespace CountedSession

inductive Event
  | streamFrame (id offset length : Nat) (fin accepted : Bool)
  | rstStream (id byteOffset : Nat) (errorOk accepted : Bool)
  | stopSending (id : Nat) (errorOk : Bool)
  | windowUpdate (id : Nat)
  | streamsBlocked (streamCount : Nat)
  | finRead (id : Nat)
  | reset (id : Nat) (errorOk : Bool)
  | finConsumed (id : Nat)
  | dataConsumed (id : Nat)
  | acked (id : Nat) (allBytes fin : Bool)
  | canSendMaxStreams (b : Bool)
deriving DecidableEq

section
variable (s : CountedSession)

def close : CountedSession := { s with connected := false }

def counted (id : Nat) : Counted :=
  { s.accounts id with id := id, manager := s.manager, canSendMaxStreams := s.canSendMaxStreams }

def put (c : Counted) : CountedSession :=
  { s with accounts := update s.accounts c.id c.toAccount, manager := c.manager }

def isOpenStream (id : Nat) : Bool := (s.accounts id).stream.any fun st => !st.isZombie

def isClosedStream (id : Nat) : Bool := !s.isOpenStream id && !s.manager.isAvailableStream id

/-- A stream of the peer that may only be read starts as if its FIN had been sent. -/
def newStream (m : QuicStreamIdManager) : PeerStream :=
  { finSent := m.unidirectional, writeSideClosed := m.unidirectional }

def getOrCreateStream (id : Nat) : CountedSession × Option PeerStream :=
  match (s.accounts id).stream with
  | some st => (s, if st.isZombie then none else some st)
  | none =>
    if s.isClosedStream id then (s, none)
    else match s.manager.maybeIncreaseLargestPeerStreamId id with
      | .error _ => (s.close, none)
      | .ok m =>
        ({ s with
            manager := m
            opened := id :: s.opened
            accounts := update s.accounts id { s.accounts id with stream := some (newStream m) } },
          some (newStream m))

def onFinalByteOffsetReceived (s : CountedSession) (id finalByteOffset : Nat) (accepted : Bool) : CountedSession :=
  match (s.counted id).onFinalByteOffsetReceived finalByteOffset accepted with
  | some c => s.put c
  | none => s.close

def onStreamFrame (s : CountedSession) (id offset length : Nat) (fin accepted : Bool) : CountedSession :=
  match s.getOrCreateStream id with
  | (s₁, some st) => if accepted then s₁.put ((s₁.counted id).onStreamFrame st offset length fin) else s₁.close
  | (s₁, none) => if fin then s₁.onFinalByteOffsetReceived id (offset + length) accepted else s₁

def onRstStream (id byteOffset : Nat) (errorOk accepted : Bool) : CountedSession :=
  match s.getOrCreateStream id with
  | (s₁, some st) => if accepted then s₁.put ((s₁.counted id).onStreamReset st byteOffset errorOk) else s₁.close
  | (s₁, none) => if s₁.isClosedStream id then s₁.onFinalByteOffsetReceived id byteOffset accepted else s₁

def onStopSendingFrame (id : Nat) (errorOk : Bool) : CountedSession :=
  if s.manager.unidirectional then s.close
  else match (s.accounts id).stream with
    | some st => s.put ((s.counted id).onStopSending st errorOk)
    | none =>
      match s.getOrCreateStream id with
      | (s₁, some st) => s₁.put ((s₁.counted id).onStopSending st errorOk)
      | (s₁, none) => s₁

def onWindowUpdateFrame (id : Nat) : CountedSession :=
  if s.manager.unidirectional then s.close else (s.getOrCreateStream id).1

def onStreamsBlockedFrame (s : CountedSession) (streamCount : Nat) : CountedSession :=
  match s.manager.onStreamsBlockedFrame streamCount s.canSendMaxStreams with
  | .ok r => { s with manager := r.1 }
  | .error _ => s.close

def step (e : Event) : Option CountedSession :=
  if s.connected = false then none
  else match e with
    | .streamFrame id offset length fin accepted =>
      if s.manager.IsIncoming id then some (s.onStreamFrame id offset length fin accepted) else none
    | .rstStream id byteOffset errorOk accepted =>
      if s.manager.IsIncoming id then some (s.onRstStream id byteOffset errorOk accepted) else none
    | .stopSending id errorOk => if s.manager.IsIncoming id then some (s.onStopSendingFrame id errorOk) else none
    | .windowUpdate id => if s.manager.IsIncoming id then some (s.onWindowUpdateFrame id) else none
    | .streamsBlocked n => some (s.onStreamsBlockedFrame n)
    | .finRead id =>
      (s.accounts id).stream.bind fun st =>
        if st.finReceived = true ∧ st.readSideClosed = false then some (s.put ((s.counted id).onFinRead st)) else none
    | .reset id errorOk => (s.accounts id).stream.map fun _ => s.put ((s.counted id).resetWithError errorOk)
    | .finConsumed id =>
      (s.accounts id).stream.bind fun st =>
        if st.writeSideClosed = false then some (s.put ((s.counted id).finConsumed st)) else none
    | .dataConsumed id =>
      (s.accounts id).stream.bind fun st =>
        if st.writeSideClosed = false then some (s.put ((s.counted id).dataConsumed st)) else none
    | .acked id allBytes fin =>
      (s.accounts id).stream.map fun st => s.put ((s.counted id).onStreamFrameAcked st allBytes fin)
    | .canSendMaxStreams b => some { s with canSendMaxStreams := b }

def init (p : Perspective) (unidirectional : Bool) (outgoing initial : Nat) : CountedSession :=
  { manager :=
      { perspective := p, unidirectional := unidirectional, outgoingMaxStreams := outgoing,
        incomingInitialMaxOpenStreams := initial } }

def credited : Nat := (s.opened.map fun id => (s.accounts id).credits).sum

end

/-! ## The books of the session -/

/-- With an initial limit beyond the maximum only the books of the streams are kept. -/
structure Inv (initial : Nat) (s : CountedSession) : Prop where
  settled : ∀ id ∈ s.opened, (s.accounts id).Settled
  fresh : ∀ id ∉ s.opened, s.accounts id = {}
  nodup : s.opened.Nodup
  taken : ∀ id ∈ s.opened, s.manager.IsIncoming id ∧ s.manager.isAvailableStream id = false
  tidy : Tidy s.manager
  going : s.manager.stopIncreasingIncomingMaxStreams = false
  incoming : initial ≤ QuicUtils.getMaxStreamCount → Incoming s.opened s.manager
  actual : initial + s.credited ≤ QuicUtils.getMaxStreamCount →
    s.manager.incomingActualMaxStreams = initial + s.credited

section
variable {initial : Nat} {s s' : CountedSession} {id : Nat} {st : PeerStream}

theorem Inv.close (h : Inv initial s) : Inv initial s.close := { h with }

theorem sum_map_update {f : Nat → Account} {a : Account} {k : Nat} {l : List Nat} (hnd : l.Nodup) (hid : id ∈ l)
    (ha : a.credits = (f id).credits + k) :
    (l.map fun j => (update f id a j).credits).sum = (l.map fun j => (f j).credits).sum + k := by
  induction l with
  | nil => cases hid
  | cons j l ih =>
    obtain ⟨hj, hl⟩ := nodup_cons.1 hnd
    simp only [map_cons, sum_cons]
    by_cases hji : j = id
    · subst hji
      have hrest : (l.map fun i => (update f j a i).credits) = l.map fun i => (f i).credits := by
        apply map_congr_left
        intro i hi
        rw [update_of_ne (ne_of_mem_of_not_mem hi hj)]
      rw [hrest, update_self, ha]
      omega
    · have hmem : id ∈ l := (mem_cons.1 hid).resolve_left (Ne.symm hji)
      rw [ih hl hmem, update_of_ne hji]
      omega

theorem Inv.put (h : Inv initial s) (hid : id ∈ s.opened) {c : Counted} (hc : c.Settled)
    (hp : (s.counted id).Paid c) : Inv initial (s.put c) := by
  obtain ⟨k, hcr, hm⟩ := hp.calls
  have hcid : c.id = id := hp.id
  change c.credits = (s.accounts id).credits + k at hcr
  change c.manager = Counted.closings s.manager id s.canSendMaxStreams k at hm
  have hsame : SameIds s.manager c.manager := hm ▸ Counted.sameIds_closings k
  have hsum : (s.put c).credited = s.credited + k := by
    unfold credited CountedSession.put
    rw [hcid]
    exact sum_map_update h.nodup hid hcr
  refine ⟨?_, ?_, h.nodup, ?_, hsame.tidy h.tidy, hsame.stop.trans h.going, ?_, ?_⟩
  · intro j hj
    change (update s.accounts c.id c.toAccount j).Settled
    by_cases hji : j = c.id
    · rw [hji, update_self]
      exact hc
    · rw [update_of_ne hji]
      exact h.settled j hj
  · intro j hj
    change update s.accounts c.id c.toAccount j = {}
    rw [update_of_ne]
    · exact h.fresh j hj
    · rintro rfl
      exact hj (hcid ▸ hid)
  · intro j hj
    obtain ⟨hin, hav⟩ := h.taken j hj
    exact ⟨hsame.isIncoming.2 hin, (hsame.isAvailableStream hin).trans hav⟩
  · intro hmax
    change Incoming s.opened c.manager
    rw [hm]
    exact Counted.incoming_closings (h.incoming hmax) k
  · intro hmax
    rw [hsum] at hmax ⊢
    have hact := h.actual (by omega)
    change c.manager.incomingActualMaxStreams = _
    rw [hm, Counted.actual_closings (h.taken id hid).1 h.going (by omega), hact, add_assoc]

theorem Inv.opened_of_stream (h : Inv initial s) (hs : (s.accounts id).stream = some st) : id ∈ s.opened := by
  by_contra hn
  rw [h.fresh id hn] at hs
  cases hs

theorem Inv.held (h : Inv initial s) (hs : (s.accounts id).stream = some st) {c : Counted}
    (hc : (s.counted id).Settled → c.Settled) (hp : (s.counted id).Paid c) : Inv initial (s.put c) :=
  h.put (h.opened_of_stream hs) (hc (h.settled id (h.opened_of_stream hs))) hp

/-! ## Opening -/

theorem settled_newStream (m : QuicStreamIdManager) : Account.Settled { stream := some (newStream m) } := by
  refine ⟨.live (newStream m) ⟨rfl, rfl, rfl, rfl, ?_, fun hf => hf, rfl⟩ (.inl rfl), nofun⟩
  exact (Bool.and_false _).symm

theorem Inv.open (h : Inv initial s) (hid : s.manager.IsIncoming id) (hav : s.manager.isAvailableStream id = true)
    {m : QuicStreamIdManager} (hok : s.manager.maybeIncreaseLargestPeerStreamId id = .ok m) : Inv initial { s with
      manager := m
      opened := id :: s.opened
      accounts := update s.accounts id { s.accounts id with stream := some (newStream m) } } := by
  have hnew : id ∉ s.opened := by
    intro hmem
    cases hav.symm.trans (h.taken id hmem).2
  obtain ⟨htidy, hinc, hself, hkeep⟩ := h.tidy.accept hid hav hok
  obtain ⟨-, -, hstop, hact, -⟩ := accept_eq hok
  rw [h.fresh id hnew]
  have hother : ∀ j ∈ s.opened, update s.accounts id { stream := some (newStream m) } j = s.accounts j := by
    intro j hj
    exact update_of_ne (ne_of_mem_of_not_mem hj hnew) _ _
  have hsum : (({ s with
      manager := m
      opened := id :: s.opened
      accounts := update s.accounts id { stream := some (newStream m) } } : CountedSession)).credited = s.credited := by
    unfold credited
    simp only [map_cons, sum_cons, update_self, zero_add]
    congr 1
    apply map_congr_left
    intro j hj
    rw [hother j hj]
  refine ⟨?_, ?_, nodup_cons.2 ⟨hnew, h.nodup⟩, ?_, htidy, hstop.trans h.going, ?_, ?_⟩
  · intro j hj
    dsimp only at hj ⊢
    rcases mem_cons.1 hj with rfl | hj
    · rw [update_self]
      exact settled_newStream m
    · rw [hother j hj]
      exact h.settled j hj
  · intro j hj
    dsimp only at hj ⊢
    rw [mem_cons, not_or] at hj
    rw [update_of_ne hj.1]
    exact h.fresh j hj.2
  · intro j hj
    rcases mem_cons.1 hj with rfl | hj
    · exact ⟨(hinc j).2 hid, hself⟩
    · obtain ⟨hin, hf⟩ := h.taken j hj
      exact ⟨(hinc j).2 hin, hkeep j hin hf⟩
  · exact fun hmax => (h.incoming hmax).of_ok hid hnew hok
  · intro hmax
    rw [hsum] at hmax ⊢
    exact hact.trans (h.actual hmax)

theorem Inv.getOrCreateStream (h : Inv initial s) (hid : s.manager.IsIncoming id) {r : Option PeerStream}
    (hg : s.getOrCreateStream id = (s', r)) :
    Inv initial s' ∧ ∀ st ∈ r, (s'.accounts id).stream = some st ∧ st.isZombie = false := by
  unfold CountedSession.getOrCreateStream at hg
  cases hs : (s.accounts id).stream with
  | some st =>
    rw [hs] at hg
    cases hg
    refine ⟨h, fun st' hst => ?_⟩
    obtain ⟨hz, ⟨⟩⟩ := ite_none_left_eq_some.1 hst
    exact ⟨hs, Bool.eq_false_iff.2 hz⟩
  | none =>
    rw [hs] at hg
    dsimp only at hg
    split at hg
    · cases hg
      exact ⟨h, nofun⟩
    next hcl =>
    cases hok : s.manager.maybeIncreaseLargestPeerStreamId id with
    | error e =>
      rw [hok] at hg
      cases hg
      exact ⟨h.close, nofun⟩
    | ok m =>
      rw [hok] at hg
      cases hg
      have hav : s.manager.isAvailableStream id = true := by
        simpa [isClosedStream, isOpenStream, hs] using hcl
      refine ⟨h.open hid hav hok, fun st hst => ?_⟩
      cases hst
      refine ⟨by simp, ?_⟩
      simp [newStream, PeerStream.isZombie]

/-! ## Frames -/

theorem Inv.live (h : Inv initial s) (hs : (s.accounts id).stream = some st) (hz : st.isZombie = false) {c : Counted}
    (hc : (s.counted id).Tally st → st.IsOpen → c.Settled) (hp : (s.counted id).Paid c) : Inv initial (s.put c) :=
  h.held hs (fun hset => (hset.tally hs hz).elim hc) hp

theorem Inv.onFinalByteOffsetReceived (h : Inv initial s) (n : Nat) (accepted : Bool) :
    Inv initial (s.onFinalByteOffsetReceived id n accepted) := by
  unfold CountedSession.onFinalByteOffsetReceived
  cases hc : (s.counted id).onFinalByteOffsetReceived n accepted with
  | none => exact h.close
  | some c =>
    by_cases hid : id ∈ s.opened
    · have hset : (s.counted id).Settled := h.settled id hid
      exact h.put hid (hset.onFinalByteOffsetReceived hc) (Counted.paid_onFinalByteOffsetReceived hc)
    · -- no such stream was ever there
      have hl : (s.counted id).locallyClosed = none := by
        change (s.accounts id).locallyClosed = none
        rw [h.fresh id hid]
      have hsame : update s.accounts id ((s.counted id).noteFinal (s.counted id).closed).toAccount = s.accounts := by
        rw [update_eq_self_iff]
        simp [Counted.noteFinal, counted, h.fresh id hid]
      rw [Counted.onFinalByteOffsetReceived, hl] at hc
      cases hc
      change Inv initial { s with accounts := update s.accounts id _ }
      rw [hsame]
      exact h

section
variable (h : Inv initial s) (hid : s.manager.IsIncoming id)
include h hid

theorem Inv.onStreamFrame (offset length : Nat) (fin accepted : Bool) :
    Inv initial (s.onStreamFrame id offset length fin accepted) := by
  unfold CountedSession.onStreamFrame
  cases hg : s.getOrCreateStream id with
  | mk s₁ r =>
  obtain ⟨h1, hr⟩ := h.getOrCreateStream hid hg
  cases r with
  | none =>
    dsimp only
    split
    · exact h1.onFinalByteOffsetReceived _ _
    · exact h1
  | some st =>
    obtain ⟨hs, hz⟩ := hr st rfl
    dsimp only
    split
    · exact h1.live hs hz (fun ht ho => ht.onStreamFrame ho offset length fin) (Counted.paid_onStreamFrame _ _ _ _ _)
    · exact h1.close

theorem Inv.onRstStream (byteOffset : Nat) (errorOk accepted : Bool) :
    Inv initial (s.onRstStream id byteOffset errorOk accepted) := by
  unfold CountedSession.onRstStream
  cases hg : s.getOrCreateStream id with
  | mk s₁ r =>
  obtain ⟨h1, hr⟩ := h.getOrCreateStream hid hg
  cases r with
  | none =>
    dsimp only
    split
    · exact h1.onFinalByteOffsetReceived _ _
    · exact h1
  | some st =>
    obtain ⟨hs, hz⟩ := hr st rfl
    dsimp only
    split
    · exact h1.live hs hz (fun ht ho => ht.onStreamReset ho byteOffset errorOk) (Counted.paid_onStreamReset _ _ _ _)
    · exact h1.close

theorem Inv.onStopSendingFrame (errorOk : Bool) :
    Inv initial (s.onStopSendingFrame id errorOk) := by
  have hstop : ∀ {s : CountedSession} {st : PeerStream}, Inv initial s → (s.accounts id).stream = some st →
      Inv initial (s.put ((s.counted id).onStopSending st errorOk)) := fun h hs =>
    h.held hs (fun hset => hset.onStopSending _ errorOk) (Counted.paid_onStopSending _ _ _)
  unfold CountedSession.onStopSendingFrame
  split
  · exact h.close
  cases hs : (s.accounts id).stream with
  | some st => exact hstop h hs
  | none =>
    cases hg : s.getOrCreateStream id with
    | mk s₁ r =>
    obtain ⟨h1, hr⟩ := h.getOrCreateStream hid hg
    cases r with
    | none => exact h1
    | some st => exact hstop h1 (hr st rfl).1

theorem Inv.onWindowUpdateFrame : Inv initial (s.onWindowUpdateFrame id) := by
  unfold CountedSession.onWindowUpdateFrame
  split
  · exact h.close
  · exact (h.getOrCreateStream hid rfl).1

end

theorem Inv.onStreamsBlockedFrame (h : Inv initial s) (n : Nat) : Inv initial (s.onStreamsBlockedFrame n) := by
  unfold CountedSession.onStreamsBlockedFrame
  cases hr : s.manager.onStreamsBlockedFrame n s.canSendMaxStreams with
  | error e => exact h.close
  | ok r =>
    obtain ⟨hsame, hact, hinc⟩ := sameIds_onStreamsBlockedFrame hr
    refine ⟨h.settled, h.fresh, h.nodup, ?_, hsame.tidy h.tidy, hsame.stop.trans h.going, ?_, ?_⟩
    · intro j hj
      obtain ⟨hin, hav⟩ := h.taken j hj
      exact ⟨hsame.isIncoming.2 hin, (hsame.isAvailableStream hin).trans hav⟩
    · exact fun hmax => hinc _ (h.incoming hmax)
    · exact fun hmax => hact.trans (h.actual hmax)

/-! ## Steps -/

theorem not_zombie_of_open (hopen : st.IsOpen) : st.isZombie = false := by
  rcases hopen with ho | ho <;> simp [PeerStream.isZombie, ho]

theorem step_inv {e : Event} (h : Inv initial s) (hs : s.step e = some s') : Inv initial s' := by
  unfold step at hs
  obtain ⟨-, hs⟩ := ite_none_left_eq_some.1 hs
  cases e with
  | streamFrame id offset length fin accepted =>
    obtain ⟨hid, ⟨⟩⟩ := ite_none_right_eq_some.1 hs
    exact h.onStreamFrame hid offset length fin accepted
  | rstStream id byteOffset errorOk accepted =>
    obtain ⟨hid, ⟨⟩⟩ := ite_none_right_eq_some.1 hs
    exact h.onRstStream hid byteOffset errorOk accepted
  | stopSending id errorOk =>
    obtain ⟨hid, ⟨⟩⟩ := ite_none_right_eq_some.1 hs
    exact h.onStopSendingFrame hid errorOk
  | windowUpdate id =>
    obtain ⟨hid, ⟨⟩⟩ := ite_none_right_eq_some.1 hs
    exact h.onWindowUpdateFrame hid
  | streamsBlocked n =>
    cases hs
    exact h.onStreamsBlockedFrame n
  | finRead id =>
    obtain ⟨st, hst, hs⟩ := bind_eq_some_iff.1 hs
    obtain ⟨⟨hfin, hr⟩, ⟨⟩⟩ := ite_none_right_eq_some.1 hs
    exact h.live hst (not_zombie_of_open (.inl hr)) (fun ht ho => ht.onFinRead ho hfin) (Counted.paid_onFinRead _ _)
  | reset id errorOk =>
    obtain ⟨st, hst, ⟨⟩⟩ := map_eq_some_iff.1 hs
    exact h.held hst (fun hset => hset.resetWithError errorOk) (Counted.paid_resetWithError _ _)
  | finConsumed id =>
    obtain ⟨st, hst, hs⟩ := bind_eq_some_iff.1 hs
    obtain ⟨hw, ⟨⟩⟩ := ite_none_right_eq_some.1 hs
    exact h.live hst (not_zombie_of_open (.inr hw)) (fun ht _ => ht.finConsumed hw) (Counted.paid_finConsumed _ _)
  | dataConsumed id =>
    obtain ⟨st, hst, hs⟩ := bind_eq_some_iff.1 hs
    obtain ⟨hw, ⟨⟩⟩ := ite_none_right_eq_some.1 hs
    exact h.live hst (not_zombie_of_open (.inr hw)) (fun ht ho => ht.dataConsumed ho) (Counted.paid_setStream _ _)
  | acked id allBytes fin =>
    obtain ⟨st, hst, ⟨⟩⟩ := map_eq_some_iff.1 hs
    exact h.held hst (fun hset => hset.onStreamFrameAcked hst allBytes fin) (Counted.paid_onStreamFrameAcked _ _ _ _)
  | canSendMaxStreams b =>
    cases hs
    exact { h with }

end

theorem init_inv (p : Perspective) (unidirectional : Bool) (outgoing initial : Nat) :
    Inv initial (init p unidirectional outgoing initial) := by
  refine ⟨?_, fun _ _ => rfl, nodup_nil, ?_, ⟨?_, fun hl => absurd rfl hl⟩, rfl, fun hmax => ?_, fun _ => rfl⟩
  · intro id hid
    cases hid
  · intro id hid
    cases hid
  · intro k hk
    exact absurd hk (Finset.notMem_empty k)
  · refine ⟨⟨Nat.zero_le _, le_rfl, hmax⟩, rfl, ?_, fun h0 => absurd h0 (lt_irrefl 0), ?_⟩
    · intro id hid
      cases hid
    · intro id
      simp [init]

/-! ## Whole runs -/

section
variable {initial : Nat} {s : CountedSession}

theorem Inv.credits_eq (h : Inv initial s) (id : Nat) :
    (s.accounts id).credits = if (s.accounts id).creditable then 1 else 0 := by
  by_cases hid : id ∈ s.opened
  · exact (h.settled id hid).credits_eq
  · rw [h.fresh id hid]
    rfl

theorem Inv.credited_eq (h : Inv initial s) : s.credited = s.opened.countP fun id => (s.accounts id).creditable := by
  unfold credited
  induction s.opened with
  | nil => rfl
  | cons id l ih => rw [map_cons, sum_cons, countP_cons, ih, h.credits_eq id, add_comm]

theorem Inv.opened_le_count (h : Inv initial s) (hmax : initial ≤ QuicUtils.getMaxStreamCount) :
    s.opened.length ≤ s.manager.incomingStreamCount := by
  have hsub : s.opened ⊆ (range s.manager.incomingStreamCount).map fun i =>
    s.manager.getFirstIncomingStreamId + 4 * i := by
    intro id hid
    obtain ⟨i, hi, rfl⟩ := (h.incoming hmax).heard_lt id hid
    exact mem_map.2 ⟨i, mem_range.2 hi, rfl⟩
  calc s.opened.length ≤ _ := (h.nodup.subperm hsub).length_le
    _ = s.manager.incomingStreamCount := by rw [length_map, length_range]

end

/-- **Stream-count credit is conserved.** The manager is told once of each stream of the peer that is over here and
whose final size has come, and of no other. -/
theorem count_conserved {p : Perspective} {unidirectional : Bool} {outgoing initial : Nat} {es : List Event}
    {s : CountedSession} (hrun : Lts.run step (init p unidirectional outgoing initial) es = some s) :
    (∀ id, (s.accounts id).credits = if (s.accounts id).creditable then 1 else 0) ∧
      (initial + (s.opened.countP fun id => (s.accounts id).creditable) ≤ QuicUtils.getMaxStreamCount →
        s.manager.incomingActualMaxStreams = initial + (s.opened.countP fun id => (s.accounts id).creditable) ∧
        s.manager.incomingStreamCount ≤ s.manager.incomingAdvertisedMaxStreams ∧
        s.manager.incomingAdvertisedMaxStreams ≤ s.manager.incomingActualMaxStreams ∧
        s.manager.incomingStreamCount - (s.opened.countP fun id => (s.accounts id).creditable) ≤ initial ∧
        (s.opened.countP fun id => !(s.accounts id).creditable) ≤ initial) := by
  have hi : Inv initial s :=
    Lts.run_inv (fun s e s' h hs => step_inv h hs) (init_inv p unidirectional outgoing initial) hrun
  refine ⟨hi.credits_eq, fun hmax => ?_⟩
  have hin := hi.incoming (by omega)
  have hopened := hi.opened_le_count (by omega)
  have hact := hi.actual (by rw [hi.credited_eq]; exact hmax)
  rw [hi.credited_eq] at hact
  have hcount := hin.count
  have hadv := hin.advertised
  have hlen := length_eq_countP_add_countP (l := s.opened) fun id => (s.accounts id).creditable
  simp only [Bool.not_eq_true, Bool.decide_eq_false] at hlen
  refine ⟨hact, hcount, hadv, ?_, ?_⟩ <;> omega

def outOfOrder : List Event :=
  [.streamFrame 4 0 3 false true, .streamFrame 0 0 5 true true, .dataConsumed 0, .finConsumed 0, .reset 4 false,
    .rstStream 4 5 false true, .finRead 0, .streamFrame 0 0 5 true true, .acked 0 true true, .streamsBlocked 4,
    .streamFrame 12 0 1 false true]

theorem count_conserved_outOfOrder : ∃ s, Lts.run step (init .isServer false 10 2) outOfOrder = some s ∧
    s.connected = true ∧ s.opened = [12, 0, 4] ∧
      (∀ id, (s.accounts id).credits = if (s.accounts id).creditable then 1 else 0) ∧
    s.manager.incomingActualMaxStreams = 4 := by
  refine ⟨_, rfl, rfl, rfl, ?_⟩
  have h := @count_conserved .isServer false 10 2 outOfOrder _ rfl
  exact ⟨h.1, (h.2 (by decide)).1⟩

end CountedSession

end Quictun
