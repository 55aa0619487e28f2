import Mathlib.Data.List.Nodup
import Quictun.Run
import Quictun.StreamIdManager

/-!
# Agreement on the stream limit

Two `QuicStreamIdManager`s of one connection and of one directionality: the opener creates
streams as its limit allows, the acceptor hears of them and closes them in any order. A
delivery picks any MAX_STREAMS or STREAMS_BLOCKED frame sent so far.

What carries the proof is one chain: streams created ≤ the opener's limit ≤ what the
acceptor has advertised, and a frame on its way tells no more than that.
-/

namespace Quictun

open Option List

structure StreamLimits where
  opener : QuicStreamIdManager
  acceptor : QuicStreamIdManager
  /-- The ids the opener has taken and those the acceptor has accepted as new (history only). -/
  created : List Nat := []
  heard : List Nat := []
  maxStreams : List Nat := []
  streamsBlocked : List Nat := []
  /-- The details of the errors for which the acceptor would close the connection. -/
  errors : List String := []

namespace StreamLimits

open QuicStreamIdManager

def init (p : Perspective) (unidirectional : Bool) (limit openerIncoming acceptorOutgoing : Nat) : StreamLimits where
  opener := (maybeAllowNewOutgoingStreams
    { perspective := p, unidirectional := unidirectional, outgoingMaxStreams := 0,
      incomingInitialMaxOpenStreams := openerIncoming } limit).1
  acceptor := { perspective := p.invert, unidirectional := unidirectional, outgoingMaxStreams := acceptorOutgoing,
                incomingInitialMaxOpenStreams := limit }

inductive Ev
  | create
  | hear (id : Nat)
  | close (id : Nat) (canSendMaxStreams : Bool)
  | stopIncreasingIncomingMaxStreams
  | deliverMaxStreams (streamCount : Nat)
  | sendStreamsBlocked
  | deliverStreamsBlocked (streamCount : Nat) (canSendMaxStreams : Bool)

section
variable (s : StreamLimits)

def withAcceptor (r : QuicStreamIdManager × Option Nat) : StreamLimits :=
  { s with acceptor := r.1, maxStreams := r.2.toList ++ s.maxStreams }

def hear (id : Nat) : StreamLimits :=
  match s.acceptor.maybeIncreaseLargestPeerStreamId id with
  | .ok a => { s with acceptor := a, heard := id :: s.heard }
  -- a stream that was accepted before is open or closed by now and the frame goes to it
  | .error e => if id ∈ s.heard then s else { s with errors := e :: s.errors }

def deliverStreamsBlocked (n : Nat) (canSend : Bool) : StreamLimits :=
  match s.acceptor.onStreamsBlockedFrame n canSend with
  | .ok r => s.withAcceptor r
  | .error e => { s with errors := e :: s.errors }

def step : Ev → Option StreamLimits
  | .create =>
    if s.opener.canOpenNextOutgoingStream then
      some { s with opener := s.opener.getNextOutgoingStreamId.2
                    created := s.opener.getNextOutgoingStreamId.1 :: s.created }
    else none
  | .hear id => if id ∈ s.created then some (s.hear id) else none
  | .close id canSend => if id ∈ s.heard then some (s.withAcceptor (s.acceptor.onStreamClosed id canSend)) else none
  | .stopIncreasingIncomingMaxStreams =>
    some { s with acceptor := { s.acceptor with stopIncreasingIncomingMaxStreams := true } }
  | .deliverMaxStreams n =>
    if n ∈ s.maxStreams then some { s with opener := (s.opener.maybeAllowNewOutgoingStreams n).1 } else none
  | .sendStreamsBlocked =>
    if s.opener.canOpenNextOutgoingStream then none
    else some { s with streamsBlocked := s.opener.outgoingMaxStreams :: s.streamsBlocked }
  | .deliverStreamsBlocked n canSend =>
    if n ∈ s.streamsBlocked then some (s.deliverStreamsBlocked n canSend) else none

end

/-! ## The chain of limits -/

structure Inv (s : StreamLimits) : Prop where
  incoming : Incoming s.heard s.acceptor
  nodup : s.heard.Nodup
  heard_created : ∀ id ∈ s.heard, id ∈ s.created
  next : s.opener.nextOutgoingStreamId =
    add32 s.acceptor.getFirstIncomingStreamId (4 * s.opener.outgoingStreamCount)
  created : ∀ id ∈ s.created, ∃ i < s.opener.outgoingStreamCount, id = s.acceptor.getFirstIncomingStreamId + 4 * i
  count : s.opener.outgoingStreamCount ≤ s.opener.outgoingMaxStreams
  limit : s.opener.outgoingMaxStreams ≤ s.acceptor.incomingAdvertisedMaxStreams
  maxStreams : ∀ n ∈ s.maxStreams, n ≤ s.acceptor.incomingAdvertisedMaxStreams
  streamsBlocked : ∀ n ∈ s.streamsBlocked, n ≤ s.acceptor.incomingAdvertisedMaxStreams
  errors : s.errors = []

section
variable {s : StreamLimits}

theorem inv_init {p : Perspective} {u : Bool} {limit a b : Nat}
    (h : (init p u limit a b).opener.outgoingMaxStreams = (init p u limit a b).acceptor.incomingAdvertisedMaxStreams) :
    Inv (init p u limit a b) := by
  have hlim : limit ≤ QuicUtils.getMaxStreamCount := by
    simp only [init, maybeAllowNewOutgoingStreams] at h
    by_cases h0 : limit ≤ 0
    · exact le_trans h0 (Nat.zero_le _)
    · rw [if_neg h0] at h
      exact min_eq_left_iff.1 h
  have hnext : (init p u limit a b).opener.nextOutgoingStreamId = QuicUtils.getFirstStreamId u p := by
    simp only [init, maybeAllowNewOutgoingStreams]
    split <;> rfl
  have hcount : (init p u limit a b).opener.outgoingStreamCount = 0 := by
    simp only [init, maybeAllowNewOutgoingStreams]
    split <;> rfl
  have hfirst : (init p u limit a b).acceptor.getFirstIncomingStreamId = QuicUtils.getFirstStreamId u p := by
    cases p <;> rfl
  refine ⟨⟨⟨Nat.zero_le _, le_rfl, hlim⟩, rfl, ?_, ?_, ?_⟩, nodup_nil, ?_, ?_, ?_, ?_, h.le, ?_, ?_, rfl⟩
  · intro id hid
    cases hid
  · intro h0
    cases h0
  · intro id
    simp [init]
  · intro id hid
    cases hid
  · have hf := getFirstStreamId_lt u p
    rw [hnext, hfirst, hcount]
    exact (Nat.mod_eq_of_lt (by omega)).symm
  · intro id hid
    cases hid
  · rw [hcount]
    exact Nat.zero_le _
  · intro n hn
    cases hn
  · intro n hn
    cases hn

theorem Inv.limit_le (h : Inv s) : s.opener.outgoingMaxStreams ≤ 2 ^ 30 :=
  le_trans h.limit (le_trans h.incoming.advertised h.incoming.actual)

theorem Inv.create (h : Inv s) (hc : s.opener.canOpenNextOutgoingStream = true) :
    Inv { s with opener := s.opener.getNextOutgoingStreamId.2
                 created := s.opener.getNextOutgoingStreamId.1 :: s.created } := by
  have hlt : s.opener.outgoingStreamCount < s.opener.outgoingMaxStreams := of_decide_eq_true hc
  have hmax := h.limit_le
  have hf : s.acceptor.getFirstIncomingStreamId < 4 := getFirstStreamId_lt _ _
  have hnext := h.next
  have hcount : add32 s.opener.outgoingStreamCount 1 = s.opener.outgoingStreamCount + 1 := add32_of_lt (by omega)
  refine { h with heard_created := ?_, next := ?_, created := ?_, count := ?_ }
  · intro id hid
    exact mem_cons_of_mem _ (h.heard_created id hid)
  · simp only [getNextOutgoingStreamId, hnext, add32, QuicUtils.streamIdDelta]
    omega
  · intro id hid
    simp only [getNextOutgoingStreamId, hcount]
    rcases mem_cons.1 hid with rfl | hid
    · refine ⟨s.opener.outgoingStreamCount, Nat.lt_succ_self _, ?_⟩
      simp only [getNextOutgoingStreamId, hnext, add32]
      omega
    · obtain ⟨i, hi, hid⟩ := h.created id hid
      exact ⟨i, Nat.lt_succ_of_lt hi, hid⟩
  · simp only [getNextOutgoingStreamId, hcount]
    exact hlt

theorem Inv.hear (h : Inv s) {id : Nat} (hid : id ∈ s.created) : Inv (s.hear id) := by
  rw [StreamLimits.hear]
  by_cases hh : id ∈ s.heard
  · obtain ⟨e, he⟩ := h.incoming.rejects_heard hh
    rw [he]
    simp only [if_pos hh]
    exact h
  · obtain ⟨i, hi, rfl⟩ := h.created id hid
    have hlim : i < s.acceptor.incomingAdvertisedMaxStreams :=
      lt_of_lt_of_le hi (le_trans h.count h.limit)
    obtain ⟨a, ha, hin, hu, hp, hadv, -⟩ := h.incoming.accepts_new hh hlim
    have hfirst : a.getFirstIncomingStreamId = s.acceptor.getFirstIncomingStreamId := by
      rw [getFirstIncomingStreamId, getFirstIncomingStreamId, hu, hp]
    rw [ha]
    refine ⟨hin, nodup_cons.2 ⟨hh, h.nodup⟩, ?_, ?_, ?_, h.count, ?_, ?_, ?_, h.errors⟩
    · exact forall_mem_cons.2 ⟨hid, h.heard_created⟩
    · rw [hfirst]
      exact h.next
    · rw [hfirst]
      exact h.created
    · rw [hadv]
      exact h.limit
    · rw [hadv]
      exact h.maxStreams
    · rw [hadv]
      exact h.streamsBlocked

theorem Inv.withAcceptor (h : Inv s) {r : QuicStreamIdManager × Option Nat} (hr : Raises s.acceptor r.1 r.2) :
    Inv (s.withAcceptor r) := by
  have hfirst : r.1.getFirstIncomingStreamId = s.acceptor.getFirstIncomingStreamId := by
    rw [getFirstIncomingStreamId, getFirstIncomingStreamId, hr.unidirectional, hr.perspective]
  refine ⟨hr.incoming _ h.incoming, h.nodup, h.heard_created, ?_, ?_, h.count, ?_, ?_, ?_, h.errors⟩
  · simp only [StreamLimits.withAcceptor, hfirst]
    exact h.next
  · simp only [StreamLimits.withAcceptor, hfirst]
    exact h.created
  · exact le_trans h.limit hr.advertised
  · intro n hn
    rcases mem_append.1 hn with hn | hn
    · exact (hr.frame n (mem_toList.1 hn)).le
    · exact le_trans (h.maxStreams n hn) hr.advertised
  · intro n hn
    exact le_trans (h.streamsBlocked n hn) hr.advertised

theorem Inv.deliverMaxStreams (h : Inv s) {n : Nat} (hn : n ∈ s.maxStreams) :
    Inv { s with opener := (s.opener.maybeAllowNewOutgoingStreams n).1 } := by
  rw [maybeAllowNewOutgoingStreams]
  split
  · exact h
  · have hadv := h.maxStreams n hn
    have hmax := le_trans hadv (le_trans h.incoming.advertised h.incoming.actual)
    have hmin : min n QuicUtils.getMaxStreamCount = n := min_eq_left hmax
    refine { h with count := ?_, limit := ?_ }
    · have hc := h.count
      simp only [hmin]
      omega
    · simp only [hmin]
      exact hadv

theorem Inv.deliverStreamsBlocked (h : Inv s) {n : Nat} (hn : n ∈ s.streamsBlocked) (canSend : Bool) :
    Inv (s.deliverStreamsBlocked n canSend) := by
  obtain ⟨r, hr, hraise⟩ := raises_onStreamsBlockedFrame h.incoming.toLimits (h.streamsBlocked n hn) canSend
  rw [StreamLimits.deliverStreamsBlocked, hr]
  exact h.withAcceptor hraise

theorem Inv.step {s' : StreamLimits} {e : Ev} (h : Inv s) (hs : s.step e = some s') : Inv s' := by
  cases e with
  | create =>
    obtain ⟨hc, ⟨⟩⟩ := ite_none_right_eq_some.1 hs
    exact h.create hc
  | hear id =>
    obtain ⟨hid, ⟨⟩⟩ := ite_none_right_eq_some.1 hs
    exact h.hear hid
  | close id canSend =>
    obtain ⟨-, ⟨⟩⟩ := ite_none_right_eq_some.1 hs
    exact h.withAcceptor (raises_onStreamClosed h.incoming.toLimits id canSend)
  | stopIncreasingIncomingMaxStreams =>
    cases hs
    exact { h with incoming := { h.incoming with } }
  | deliverMaxStreams n =>
    obtain ⟨hn, ⟨⟩⟩ := ite_none_right_eq_some.1 hs
    exact h.deliverMaxStreams hn
  | sendStreamsBlocked =>
    obtain ⟨-, ⟨⟩⟩ := ite_none_left_eq_some.1 hs
    refine { h with streamsBlocked := ?_ }
    exact forall_mem_cons.2 ⟨h.limit, h.streamsBlocked⟩
  | deliverStreamsBlocked n canSend =>
    obtain ⟨hn, ⟨⟩⟩ := ite_none_right_eq_some.1 hs
    exact h.deliverStreamsBlocked hn canSend

end

/-! ## Agreement -/

/-- **The limits agree.** Whatever is lost, late, repeated or overtaken, the acceptor never rejects a stream the
opener created and accepts each id once. -/
theorem limits_agree {p : Perspective} {u : Bool} {limit a b : Nat} {es : List Ev} {s : StreamLimits}
    (hagree : (init p u limit a b).opener.outgoingMaxStreams =
      (init p u limit a b).acceptor.incomingAdvertisedMaxStreams)
    (hr : Lts.run step (init p u limit a b) es = some s) : s.errors = [] ∧
    s.heard.Nodup ∧
    (∀ id ∈ s.heard, id ∈ s.created ∧ ∃ e, s.acceptor.maybeIncreaseLargestPeerStreamId id = .error e) ∧
    (∀ id ∈ s.created, id ∉ s.heard → ∃ m, s.acceptor.maybeIncreaseLargestPeerStreamId id = .ok m) ∧
    ∀ id, id ∈ s.acceptor.availableStreams ↔
      id % 4 = s.acceptor.getFirstIncomingStreamId ∧ (∃ largest ∈ s.heard, id < largest) ∧ id ∉ s.heard := by
  have h : Inv s := Lts.run_inv (fun s e s' hi hs => Inv.step hi hs) (inv_init hagree) hr
  refine ⟨h.errors, h.nodup, ?_, ?_, h.incoming.mem_available_iff⟩
  · intro id hid
    exact ⟨h.heard_created id hid, h.incoming.rejects_heard hid⟩
  · intro id hid hnew
    obtain ⟨i, hi, rfl⟩ := h.created id hid
    obtain ⟨m, hm, -⟩ :=
      h.incoming.accepts_new hnew (lt_of_lt_of_le hi (le_trans h.count h.limit))
    exact ⟨m, hm⟩

def secondFirst : List Ev :=
  [.create, .create, .sendStreamsBlocked, .hear 4, .close 4 true, .deliverMaxStreams 3, .create, .hear 4, .hear 0,
    .deliverMaxStreams 3, .deliverStreamsBlocked 2 true, .hear 8]

theorem limits_agree_secondFirst :
    ∃ s, Lts.run step (init .isClient false 2 10 0) secondFirst = some s ∧ s.heard = [8, 0, 4] ∧ s.errors = [] ∧
      s.heard.Nodup := by
  refine ⟨_, rfl, rfl, ?_⟩
  have h := @limits_agree .isClient false 2 10 0 secondFirst _ rfl rfl
  exact ⟨h.1, h.2.1⟩

end StreamLimits

end Quictun
