import Mathlib.Data.List.Dedup
import Mathlib.Data.List.Range
import Quictun.ControlFrames

/-!
# No control frame is lost or invented

A ledger beside the `QuicControlFrameManager`: the frames handed to `WriteOrBuffer*()`, the
ones acknowledged, and the ones reported lost and not sent since. Every call is described by
what it does to the frames that are outstanding (still in the queue with their id) and to
`pending_retransmissions_`; a send may also acknowledge an older WINDOW_UPDATE of the same
stream and pop a prefix of the queue, which moves the indices but not the outstanding frames.
-/

namespace Quictun

open List Except

namespace QuicControlFrameManager

/-! ## The outstanding frames -/

def Outstanding (m : QuicControlFrameManager) (f : ControlFrame) : Prop :=
  f.controlFrameId ≠ 0 ∧ m.leastUnacked ≤ f.controlFrameId ∧
    m.controlFrames[f.controlFrameId - m.leastUnacked]? = some f

section
variable {m m' : QuicControlFrameManager} {f : ControlFrame}

theorem Valid.outstanding_cleanUp (h : Valid m) : Outstanding m.cleanUp f ↔ Outstanding m f := by
  simp only [Outstanding, h.leastUnacked_cleanUp, getElem?_cleanUp]
  constructor
  · rintro ⟨h0, hle, hf⟩
    refine ⟨h0, by omega, ?_⟩
    rw [← hf]
    congr 1
    omega
  · rintro ⟨h0, hle, hf⟩
    have hk := takeWhile_le_of_not_acked hf h0
    refine ⟨h0, by omega, ?_⟩
    rw [← hf]
    congr 1
    omega

variable {id : Nat}

theorem outstanding_markAcked (hid : m.leastUnacked ≤ id) (hlt : id < 2 ^ 32) :
    Outstanding (m.markAcked id) f ↔ Outstanding m f ∧ f.controlFrameId ≠ id := by
  have hu : (m.markAcked id).leastUnacked = m.leastUnacked := rfl
  simp only [Outstanding, hu, getElem?_markAcked, index_eq hid hlt]
  constructor
  · rintro ⟨h0, hle, hf⟩
    obtain ⟨g, hg, hgf⟩ := Option.map_eq_some_iff.1 hf
    split at hgf
    · rw [← hgf] at h0
      exact absurd rfl h0
    · rw [hgf] at hg
      exact ⟨⟨h0, hle, hg⟩, by omega⟩
  · rintro ⟨⟨h0, hle, hf⟩, hne⟩
    refine ⟨h0, hle, ?_⟩
    rw [hf, Option.map_some, if_neg (by omega)]

structure Acks (m m' : QuicControlFrameManager) (id : Nat) : Prop where
  outstanding : ∀ f, Outstanding m' f ↔ Outstanding m f ∧ f.controlFrameId ≠ id
  pending : ∀ j, j ∈ m'.pendingRetransmissions ↔ j ∈ m.pendingRetransmissions ∧ j ≠ id
  leastUnsent : m'.leastUnsent = m.leastUnsent
  last : m'.lastControlFrameId = m.lastControlFrameId
  windows : m'.windowUpdateFrames = m.windowUpdateFrames
  sent : m'.sent = m.sent

theorem Valid.acks_self (h : Valid m) (hid : ∀ f, Outstanding m f → f.controlFrameId ≠ id) : Acks m m id := by
  refine ⟨?_, ?_, rfl, rfl, rfl, rfl⟩
  · intro f
    exact ⟨fun hf => ⟨hf, hid f hf⟩, fun hf => hf.1⟩
  · intro j
    refine ⟨fun hj => ⟨hj, ?_⟩, fun hj => hj.1⟩
    obtain ⟨hle, -, f, hf, rfl⟩ := h.pending j hj
    have hpos := h.pos
    exact hid f ⟨by omega, hle, hf⟩

theorem Valid.acks (h : Valid m) {b : Bool} (hr : m.onControlFrameIdAcked id = .ok (m', b)) : Acks m m' id := by
  rw [QuicControlFrameManager.onControlFrameIdAcked] at hr
  by_cases h0 : id = kInvalidControlFrameId
  · rw [if_pos h0] at hr
    obtain ⟨rfl, -⟩ := Prod.mk.inj (ok.inj hr)
    apply h.acks_self
    intro f hf
    rw [h0]
    exact hf.1
  by_cases h1 : m.leastUnsent ≤ id
  · rw [if_neg h0, if_pos h1] at hr
    cases hr
  by_cases h2 : id < m.leastUnacked
  · rw [if_neg h0, if_neg h1, if_pos h2] at hr
    obtain ⟨rfl, -⟩ := Prod.mk.inj (ok.inj hr)
    apply h.acks_self
    intro f hf
    have := hf.2.1
    omega
  rw [if_neg h0, if_neg h1, if_neg h2] at hr
  have hlt := h.lt (not_le.1 h1)
  rw [index_eq (not_lt.1 h2) hlt] at hr
  cases hg : m.controlFrames[id - m.leastUnacked]? with
  | none =>
    rw [hg] at hr
    cases hr
  | some g =>
    rw [hg] at hr
    simp only at hr
    split at hr
    next ha =>
      obtain ⟨rfl, -⟩ := Prod.mk.inj (ok.inj hr)
      apply h.acks_self
      rintro f hf rfl
      have hfg := hf.2.2.symm.trans hg
      cases hfg
      exact hf.1 (isAcked_iff.1 ha)
    · obtain ⟨rfl, -⟩ := Prod.mk.inj (ok.inj hr)
      refine ⟨?_, ?_, rfl, rfl, rfl, rfl⟩
      · intro f
        rw [(h.markAcked (not_lt.1 h2) (not_le.1 h1)).outstanding_cleanUp, outstanding_markAcked (not_lt.1 h2) hlt]
      · intro j
        exact h.pendingNodup.mem_erase_iff.trans And.comm

def superseded (m : QuicControlFrameManager) (f : ControlFrame) : Option Nat :=
  match f.frame with
  | .windowUpdate sid _ => (m.windowUpdateFrames.lookup sid).filter (· < f.controlFrameId)
  | _ => none

structure Supersedes (m m' : QuicControlFrameManager) (f : ControlFrame) : Prop where
  outstanding : ∀ g, Outstanding m' g ↔ Outstanding m g ∧ m.superseded f ≠ some g.controlFrameId
  last : m'.lastControlFrameId = m.lastControlFrameId
  windows : ∀ sid id, m'.windowUpdateFrames.lookup sid = some id →
    m.windowUpdateFrames.lookup sid = some id ∨ id = f.controlFrameId ∧ ∃ d, f.frame = .windowUpdate sid d

structure Sends (m m' : QuicControlFrameManager) (f : ControlFrame) : Prop extends Supersedes m m' f where
  pending : ∀ j, j ∈ m'.pendingRetransmissions ↔
    (j ∈ m.pendingRetransmissions ∧ m.superseded f ≠ some j) ∧ j ≠ f.controlFrameId
  leastUnsent : m'.leastUnsent = if f.controlFrameId = m.leastUnsent then m.leastUnsent + 1 else m.leastUnsent
  sent : m'.sent = f :: m.sent

structure Notes (m m' : QuicControlFrameManager) (f : ControlFrame) : Prop extends Supersedes m m' f where
  pending : ∀ j, j ∈ m'.pendingRetransmissions ↔ j ∈ m.pendingRetransmissions ∧ m.superseded f ≠ some j
  leastUnsent : m'.leastUnsent = m.leastUnsent
  sent : m'.sent = m.sent

theorem lookup_insert_or {w : FlatMap (Option Nat) Nat} {sid s : Option Nat} {new id : Nat}
    (h : (w.insert sid new).lookup s = some id) : w.lookup s = some id ∨ id = new ∧ s = sid := by
  rw [FlatMap.lookup_insert_eq] at h
  split at h
  next hs => exact .inr ⟨(Option.some.inj h).symm, hs⟩
  · exact .inl h

theorem notes_insert (hnone : m.superseded f = none) (w : FlatMap (Option Nat) Nat)
    (hw : ∀ sid id, w.lookup sid = some id →
      m.windowUpdateFrames.lookup sid = some id ∨ id = f.controlFrameId ∧ ∃ d, f.frame = .windowUpdate sid d) :
    Notes m { m with windowUpdateFrames := w } f := by
  have hiff (P : Prop) (j : Nat) : P ↔ P ∧ m.superseded f ≠ some j := by simp [hnone]
  exact ⟨⟨fun g => hiff _ _, rfl, hw⟩, fun j => hiff _ j, rfl, rfl⟩

theorem Valid.notes (h : Valid m) (hr : m.noteWindowUpdate f = .ok m') : Notes m m' f := by
  cases hf : f.frame with
  | windowUpdate sid d =>
    have hins : ∀ s id, (m.windowUpdateFrames.insert sid f.controlFrameId).lookup s = some id →
        m.windowUpdateFrames.lookup s = some id ∨ id = f.controlFrameId ∧ ∃ d, f.frame = .windowUpdate s d := by
      intro s id hs
      rcases lookup_insert_or hs with hs | ⟨rfl, rfl⟩
      · exact .inl hs
      · exact .inr ⟨rfl, d, hf⟩
    cases hl : m.windowUpdateFrames.lookup sid with
    | none =>
      have hnone : m.superseded f = none := by simp [superseded, hf, hl]
      simp only [QuicControlFrameManager.noteWindowUpdate, hf, hl] at hr
      cases hr
      exact notes_insert hnone _ hins
    | some old =>
      by_cases hlt : old < f.controlFrameId
      · have hsome : m.superseded f = some old := by simp [superseded, hf, hl, hlt]
        obtain ⟨m₁, b, hm1, -⟩ := h.onControlFrameIdAcked (h.windows sid old hl)
        have ha := h.acks hm1
        simp only [QuicControlFrameManager.noteWindowUpdate, hf, hl, if_pos hlt, hm1] at hr
        cases hr
        have hne (j : Nat) : j ≠ old ↔ m.superseded f ≠ some j := by
          rw [hsome, Ne, Ne, Option.some.injEq, eq_comm]
        refine ⟨⟨fun g => ?_, ha.last, fun s id hs => ?_⟩, fun j => ?_, ha.leastUnsent, ha.sent⟩
        · rw [← hne]
          exact ha.outstanding g
        · simp only [ha.windows] at hs
          exact hins s id hs
        · rw [← hne]
          exact ha.pending j
      · have hnone : m.superseded f = none := by simpa [superseded, hf, hl] using hlt
        simp only [QuicControlFrameManager.noteWindowUpdate, hf, hl, if_neg hlt] at hr
        cases hr
        exact notes_insert hnone _ hins
  | _ =>
    have hnone : m.superseded f = none := by simp [superseded, hf]
    simp only [QuicControlFrameManager.noteWindowUpdate, hf] at hr
    cases hr
    exact notes_insert hnone _ fun sid id hs => .inl hs

theorem superseded_lt (h : m.superseded f = some id) : id < f.controlFrameId := by
  unfold superseded at h
  split at h
  · exact of_decide_eq_true (Option.filter_eq_some_iff.1 h).2
  · cases h

theorem Valid.outstanding (h : Valid m) (hf : Due m f) : Outstanding m f :=
  ⟨Nat.ne_of_gt (Nat.lt_of_lt_of_le h.pos hf.le), hf.le, hf.queued⟩

theorem Valid.sends (h : Valid m) (hf : Due m f) (hr : m.written f = .ok m') : Sends m m' f := by
  have h0 := (h.outstanding hf).1
  obtain ⟨m₁, w, hm1, hk, -⟩ := h.noteWindowUpdate f
  have hn := h.notes hm1
  have hnodup : m₁.pendingRetransmissions.Nodup := hk.valid.pendingNodup
  have hself : m.superseded f ≠ some f.controlFrameId := by
    intro hs
    exact lt_irrefl _ (superseded_lt hs)
  simp only [QuicControlFrameManager.written, onControlFrameSent,
    if_neg (show ¬f.controlFrameId = kInvalidControlFrameId from h0), hm1, bind,
    Except.bind, pure, Except.pure] at hr
  by_cases hp : f.controlFrameId ∈ m₁.pendingRetransmissions
  · have hlt : f.controlFrameId ≠ m.leastUnsent := by
      have := (h.pending _ ((hn.pending _).1 hp).1).2.1
      omega
    simp only [contains_iff_mem, if_pos hp] at hr
    cases hr
    refine { hn with pending := ?_, leastUnsent := ?_, sent := congrArg (f :: ·) hn.sent }
    · intro j
      rw [← hn.pending j]
      exact hnodup.mem_erase_iff.trans And.comm
    · rw [if_neg hlt]
      exact hn.leastUnsent
  · obtain ⟨hnew, hlt⟩ := hf.cause.resolve_right fun hf => hp ((hn.pending _).2 ⟨hf, hself⟩)
    have hlu : ¬m₁.leastUnsent < f.controlFrameId := by
      have := hk.leastUnsent
      omega
    simp only [contains_iff_mem, if_neg hp, if_neg hlu] at hr
    cases hr
    refine { hn with pending := ?_, leastUnsent := ?_, sent := congrArg (f :: ·) hn.sent }
    · intro j
      rw [← hn.pending j]
      refine ⟨fun hj => ⟨hj, ?_⟩, fun hj => hj.1⟩
      rintro rfl
      exact hp hj
    · rw [if_pos hnew]
      exact (congrArg nextControlFrameId hn.leastUnsent).trans (h.next_leastUnsent hlt)

theorem outstanding_enqueue (h : Valid m) (hid : m.lastControlFrameId + 2 < 2 ^ 32) (frame : QuicFrame) :
    Outstanding (m.enqueue frame) f ↔ Outstanding m f ∨ f = ⟨m.lastControlFrameId + 1, frame⟩ := by
  have hlast := h.last
  have hpos := h.pos
  have hu : (m.enqueue frame).leastUnacked = m.leastUnacked := rfl
  simp only [Outstanding, hu]
  simp only [enqueue, nextControlFrameId_last hid, getElem?_append, getElem?_singleton]
  constructor
  · rintro ⟨h0, hle, hf⟩
    split at hf
    · exact .inl ⟨h0, hle, hf⟩
    · split at hf
      · exact .inr (Option.some.inj hf).symm
      · cases hf
  · rintro (⟨h0, hle, hf⟩ | rfl)
    · refine ⟨h0, hle, ?_⟩
      rw [if_pos (List.getElem?_eq_some_iff.1 hf).1]
      exact hf
    · simp only
      refine ⟨by omega, by omega, ?_⟩
      rw [if_neg (by omega), if_pos (by omega)]

end

/-! ## The ledger -/

structure Ledger where
  manager : QuicControlFrameManager := {}
  written : List ControlFrame := []
  acked : List ControlFrame := []
  /-- Reported lost, and not sent since. -/
  lost : List ControlFrame := []

def newlySent (m m' : QuicControlFrameManager) : List ControlFrame := m'.sent.take (m'.sent.length - m.sent.length)

namespace Ledger

def advance (l : Ledger) (m' : QuicControlFrameManager) : Ledger :=
  { l with manager := m', lost := l.lost.filter fun f => f ∉ newlySent l.manager m' }

def record (l : Ledger) (m' : QuicControlFrameManager) : Call → Ledger
  | .writeOrBuffer frame _ =>
    { l.advance m' with written := ⟨nextControlFrameId l.manager.lastControlFrameId, frame⟩ :: l.written }
  | .onCanWrite _ => l.advance m'
  | .acked f => { l.advance m' with acked := f :: l.acked }
  | .lost f => { l.advance m' with lost := f :: (l.advance m').lost }

def step (l : Ledger) (c : Call) : Option Ledger := (l.manager.step c).map fun m' => l.record m' c

def Superseded (l : Ledger) (f : ControlFrame) : Prop :=
  ∃ sid, (∃ d, f.frame = .windowUpdate sid d) ∧
    ∃ g ∈ l.manager.sent, f.controlFrameId < g.controlFrameId ∧ ∃ d, g.frame = .windowUpdate sid d

structure Inv (l : Ledger) : Prop where
  valid : l.manager.Valid
  last : l.manager.lastControlFrameId = l.written.length
  ids : ∀ f ∈ l.written, 0 < f.controlFrameId ∧ f.controlFrameId ≤ l.manager.lastControlFrameId
  unique : ∀ f ∈ l.written, ∀ g ∈ l.written, f.controlFrameId = g.controlFrameId → f = g
  queued : ∀ f, l.manager.Outstanding f → f ∈ l.written ∧ f ∉ l.acked
  kept : ∀ f ∈ l.written, f ∉ l.acked → ¬l.Superseded f → l.manager.Outstanding f
  sent_written : ∀ f ∈ l.manager.sent, f ∈ l.written
  sent_of_lt : ∀ f ∈ l.written, f.controlFrameId < l.manager.leastUnsent → f ∈ l.manager.sent
  acked_sent : ∀ f ∈ l.acked, f ∈ l.manager.sent
  lost_sent : ∀ f ∈ l.lost, f ∈ l.manager.sent
  lost_pending : ∀ f ∈ l.lost, l.manager.Outstanding f → f.controlFrameId ∈ l.manager.pendingRetransmissions
  windows : ∀ sid id, l.manager.windowUpdateFrames.lookup sid = some id → ∃ d, ⟨id, .windowUpdate sid d⟩ ∈ l.written
  order : (l.manager.sent.map (·.controlFrameId)).dedup = (range' 1 (l.manager.leastUnsent - 1)).reverse

theorem inv_init : Inv {} := by
  refine ⟨valid_init, rfl, ?_, ?_, ?_, ?_, ?_, ?_, ?_, ?_, ?_, ?_, rfl⟩
  all_goals simp [Outstanding]

variable {new : List ControlFrame}

theorem newlySent_of_append {m m' : QuicControlFrameManager} (h : m'.sent = new ++ m.sent) : newlySent m m' = new := by
  simp [newlySent, h]

variable {l : Ledger}

theorem advance_eq {m' : QuicControlFrameManager} (h : m'.sent = l.manager.sent) : l.advance m' =
    { l with manager := m' } := by
  have hn : newlySent l.manager m' = [] := newlySent_of_append h
  simp [advance, hn]

variable {f : ControlFrame}

theorem advance_advance {m₁ m₂ : QuicControlFrameManager}
    (h1 : m₁.sent = f :: l.manager.sent) (h2 : m₂.sent = new ++ m₁.sent) :
    (l.advance m₁).advance m₂ = l.advance m₂ := by
  have h1' : newlySent l.manager m₁ = [f] := newlySent_of_append h1
  have h2' : newlySent m₁ m₂ = new := newlySent_of_append h2
  have h3 : newlySent l.manager m₂ = new ++ [f] := newlySent_of_append (by rw [h2, h1]; simp)
  simp [advance, h1', h2', h3, filter_filter]

section
variable {l : Ledger}

variable {f : ControlFrame} {m' : QuicControlFrameManager} {l' : Ledger}

theorem Superseded.mono (hl : l'.manager = m')
    (hs : ∀ g ∈ l.manager.sent, g ∈ m'.sent) (h : l.Superseded f) : l'.Superseded f := by
  obtain ⟨sid, hf, g, hg, hlt, hd⟩ := h
  exact ⟨sid, hf, g, hl ▸ hs g hg, hlt, hd⟩

theorem Inv.send (h : Inv l) (hf : l.manager.Outstanding f) (hs : Sends l.manager m' f) (hv : Valid m') :
    Inv (l.advance m') := by
  have hfw := (h.queued f hf).1
  have hnew : newlySent l.manager m' = [f] := newlySent_of_append hs.sent
  have hsent : ∀ g, g ∈ m'.sent ↔ g = f ∨ g ∈ l.manager.sent := by simp [hs.sent]
  have hle : l.manager.leastUnsent ≤ m'.leastUnsent := by
    rw [hs.leastUnsent]
    split <;> omega
  refine ⟨hv, hs.last.trans h.last, ?_, h.unique, ?_, ?_, ?_, ?_, ?_, ?_, ?_, ?_, ?_⟩
  · intro g hg
    simp only [advance, hs.last]
    exact h.ids g hg
  · intro g hg
    exact h.queued g ((hs.outstanding g).1 hg).1
  · intro g hg ha hsup
    have hsup' : ¬l.Superseded g := by
      intro hsg
      exact hsup (hsg.mono rfl fun k hk => (hsent k).2 (.inr hk))
    refine (hs.outstanding g).2 ⟨h.kept g hg ha hsup', ?_⟩
    -- the frame that this send acknowledges is an older one of the same stream
    intro hg'
    have hlt := superseded_lt hg'
    unfold superseded at hg'
    split at hg'
    next sid d hfr =>
      obtain ⟨d', hd'⟩ := h.windows sid _ (Option.filter_eq_some_iff.1 hg').1
      have hgd := h.unique g hg _ hd' rfl
      exact hsup ⟨sid, ⟨d', by rw [hgd]⟩, f, (hsent f).2 (.inl rfl), hlt, d, hfr⟩
    · cases hg'
  · intro g hg
    rcases (hsent g).1 hg with rfl | hg
    · exact hfw
    · exact h.sent_written g hg
  · intro g hg hlt
    apply (hsent g).2
    by_cases hold : g.controlFrameId < l.manager.leastUnsent
    · exact .inr (h.sent_of_lt g hg hold)
    · left
      simp only [advance, hs.leastUnsent] at hlt
      split at hlt
      · exact h.unique g hg f hfw (by omega)
      · exact absurd hlt hold
  · intro g hg
    exact (hsent g).2 (.inr (h.acked_sent g hg))
  · intro g hg
    exact (hsent g).2 (.inr (h.lost_sent g (mem_filter.1 hg).1))
  · intro g hg ho
    obtain ⟨hg, hgf⟩ := mem_filter.1 hg
    obtain ⟨ho, hsup⟩ := (hs.outstanding g).1 ho
    refine (hs.pending _).2 ⟨⟨h.lost_pending g hg ho, hsup⟩, ?_⟩
    intro hid
    have := h.unique g (h.sent_written g (h.lost_sent g hg)) f hfw hid
    simp [hnew, this] at hgf
  · intro sid id hl
    rcases hs.windows sid id hl with hl | ⟨rfl, d, hd⟩
    · exact h.windows sid id hl
    · refine ⟨d, ?_⟩
      rw [← hd]
      exact hfw
  · simp only [advance, hs.sent, map_cons]
    by_cases hid : f.controlFrameId = l.manager.leastUnsent
    · have hnot : f.controlFrameId ∉ l.manager.sent.map (·.controlFrameId) := by
        intro hm
        obtain ⟨g, hg, hgf⟩ := mem_map.1 hm
        have := h.valid.sentIds g hg
        omega
      have hpos := h.valid.pos
      have hun := h.valid.leastUnacked_le
      rw [dedup_cons_of_notMem hnot, h.order, hs.leastUnsent, if_pos hid, hid,
        show l.manager.leastUnsent + 1 - 1 = l.manager.leastUnsent - 1 + 1 by omega, range'_concat,
        reverse_append, reverse_singleton, singleton_append]
      congr 1
      omega
    · have hlt : f.controlFrameId < l.manager.leastUnsent := by
        have hl := hs.leastUnsent
        rw [if_neg hid] at hl
        have := hv.sentIds f ((hsent f).2 (.inl rfl))
        omega
      have hmem : f.controlFrameId ∈ l.manager.sent.map (·.controlFrameId) :=
        mem_map.2 ⟨f, h.sent_of_lt f hfw hlt, rfl⟩
      rw [dedup_cons_of_mem hmem, h.order, hs.leastUnsent, if_neg hid]

structure Sent (l : Ledger) (m' : QuicControlFrameManager) : Prop where
  inv : Inv (l.advance m')
  grows : ∃ new, m'.sent = new ++ l.manager.sent ∧ ∀ f ∈ new, f ∉ l.acked

theorem Inv.sent_self (h : Inv l) : Sent l l.manager := by
  refine ⟨?_, [], rfl, fun f hf => absurd hf not_mem_nil⟩
  rw [advance_eq rfl]
  exact h

theorem Inv.sent_cons (h : Inv l) {m₁ m₂ : QuicControlFrameManager} (hf : l.manager.Outstanding f)
    (hs : Sends l.manager m₁ f) (h2 : Sent (l.advance m₁) m₂) : Sent l m₂ := by
  obtain ⟨hinv, new, hnew, hack⟩ := h2
  refine ⟨?_, new ++ [f], ?_, ?_⟩
  · rw [← advance_advance hs.sent hnew]
    exact hinv
  · rw [hnew]
    simp [advance, hs.sent]
  · intro g hg
    rcases mem_append.1 hg with hg | hg
    · exact hack g hg
    · rw [mem_singleton.1 hg]
      exact (h.queued f hf).2

theorem Inv.writeFrames {next : QuicControlFrameManager → Result (Option ControlFrame)}
    (hnext : ∀ m, Valid m → ∃ o, next m = .ok o ∧ ∀ f ∈ o, Due m f) :
    ∀ (n : Nat) {l : Ledger} {m' : QuicControlFrameManager},
    Inv l → QuicControlFrameManager.writeFrames next n l.manager = .ok m' → Sent l m'
  | 0, l, m', h, hr => by
    obtain ⟨o, ho, -⟩ := hnext _ h.valid
    rw [QuicControlFrameManager.writeFrames, ho] at hr
    cases hr
    exact h.sent_self
  | n + 1, l, m', h, hr => by
    obtain ⟨o, ho, hdue⟩ := hnext _ h.valid
    rw [QuicControlFrameManager.writeFrames, ho] at hr
    cases o with
    | none =>
      cases hr
      exact h.sent_self
    | some f =>
      have hf := h.valid.outstanding (hdue f rfl)
      obtain ⟨m₁, hm1, hv1⟩ := h.valid.written (hdue f rfl)
      have hs := h.valid.sends (hdue f rfl) hm1
      simp only [hm1, bind, Except.bind] at hr
      exact h.sent_cons hf hs (Inv.writeFrames hnext n (h.send hf hs hv1) hr)

theorem Inv.onCanWrite (h : Inv l) {taken : Nat} {m' : QuicControlFrameManager}
    (hr : l.manager.onCanWrite taken = .ok m') :
    Sent l m' := by
  rw [QuicControlFrameManager.onCanWrite] at hr
  split at hr
  · exact h.writeFrames (fun _ h => h.nextBuffered) taken hr
  · exact h.writeFrames (fun _ h => h.nextPendingRetransmission) taken hr

def enqueue (l : Ledger) (frame : QuicFrame) : Ledger :=
  { l with
    manager := l.manager.enqueue frame
    written := ⟨nextControlFrameId l.manager.lastControlFrameId, frame⟩ :: l.written }

theorem Inv.enqueue (h : Inv l) (hid : l.manager.lastControlFrameId + 2 < 2 ^ 32) (frame : QuicFrame) :
    Inv (l.enqueue frame) := by
  have hlast := h.valid.last
  have hnew : (l.manager.enqueue frame).lastControlFrameId = l.manager.lastControlFrameId + 1 :=
    nextControlFrameId_last hid
  have he : l.enqueue frame = { l with
      manager := l.manager.enqueue frame
      written := ⟨l.manager.lastControlFrameId + 1, frame⟩ :: l.written } := by
    rw [Ledger.enqueue, nextControlFrameId_last hid]
  have hle := h.valid.leastUnsent_le
  have hsmall : ∀ f ∈ l.manager.sent, f.controlFrameId < l.manager.lastControlFrameId + 1 := by
    intro f hf
    have := h.valid.sentIds f hf
    omega
  have hout : ∀ f, (l.manager.enqueue frame).Outstanding f ↔
      l.manager.Outstanding f ∨ f = ⟨l.manager.lastControlFrameId + 1, frame⟩ :=
    fun f => outstanding_enqueue h.valid hid frame
  rw [he]
  refine ⟨h.valid.enqueue hid frame, ?_, ?_, ?_, ?_, ?_, ?_, ?_, h.acked_sent, h.lost_sent, ?_, ?_, h.order⟩
  · rw [hnew, h.last, length_cons]
  · intro f hf
    rw [hnew]
    rcases mem_cons.1 hf with rfl | hf
    · exact ⟨Nat.succ_pos _, le_rfl⟩
    · exact ⟨(h.ids f hf).1, Nat.le_succ_of_le (h.ids f hf).2⟩
  · intro f hf g hg hid
    rcases mem_cons.1 hf with rfl | hf <;> rcases mem_cons.1 hg with rfl | hg
    · rfl
    · have := (h.ids g hg).2
      simp only at hid
      omega
    · have := (h.ids f hf).2
      simp only at hid
      omega
    · exact h.unique f hf g hg hid
  · intro f hf
    rcases (hout f).1 hf with hf | rfl
    · exact ⟨mem_cons_of_mem _ (h.queued f hf).1, (h.queued f hf).2⟩
    · refine ⟨mem_cons_self, ?_⟩
      intro ha
      exact lt_irrefl _ (hsmall _ (h.acked_sent _ ha))
  · intro f hf ha hsup
    rcases mem_cons.1 hf with rfl | hf
    · exact (hout _).2 (.inr rfl)
    · exact (hout f).2 (.inl (h.kept f hf ha hsup))
  · intro f hf
    exact mem_cons_of_mem _ (h.sent_written f hf)
  · intro f hf hlt
    rcases mem_cons.1 hf with rfl | hf
    · simp only [QuicControlFrameManager.enqueue] at hlt
      omega
    · exact h.sent_of_lt f hf hlt
  · intro f hf ho
    rcases (hout f).1 ho with ho | rfl
    · exact h.lost_pending f hf ho
    · exact absurd (hsmall _ (h.lost_sent _ hf)) (lt_irrefl _)
  · intro sid id hl
    obtain ⟨d, hd⟩ := h.windows sid id hl
    exact ⟨d, mem_cons_of_mem _ hd⟩

theorem Inv.countMaxStreams (h : Inv l) (frame : QuicFrame) :
    Inv { l with manager := l.manager.countMaxStreams frame } := by
  cases frame with
  | maxStreams => exact { h with valid := { h.valid with } }
  | _ => exact h

theorem sent_countMaxStreams (m : QuicControlFrameManager) (frame : QuicFrame) :
    (m.countMaxStreams frame).sent = m.sent := by
  cases frame <;> rfl

theorem advance_countMaxStreams (m' : QuicControlFrameManager) (frame : QuicFrame) :
    l.advance (m'.countMaxStreams frame) = { l.advance m' with manager := m'.countMaxStreams frame } := by
  have hn : newlySent l.manager (m'.countMaxStreams frame) = newlySent l.manager m' := by
    rw [newlySent, newlySent, sent_countMaxStreams]
  rw [advance, advance, hn]

theorem Inv.writeOrBuffer (h : Inv l) (hid : l.manager.lastControlFrameId + 2 < 2 ^ 32) {frame : QuicFrame}
    {taken : Nat}
    {m' : QuicControlFrameManager} (hr : l.manager.writeOrBuffer frame taken = .ok m') : Sent (l.enqueue frame) m' := by
  have hq := h.enqueue hid frame
  have count {k : QuicControlFrameManager} (hk : Sent (l.enqueue frame) k) :
      Sent (l.enqueue frame) (k.countMaxStreams frame) := by
    refine ⟨?_, ?_⟩
    · rw [advance_countMaxStreams]
      exact hk.inv.countMaxStreams frame
    · rw [sent_countMaxStreams]
      exact hk.grows
  rw [QuicControlFrameManager.writeOrBuffer] at hr
  split at hr
  · cases hr
  split at hr
  · cases hr
    exact count hq.sent_self
  · cases hw : (l.manager.enqueue frame).writeBufferedFrames taken with
    | error e =>
      rw [hw] at hr
      cases hr
    | ok k =>
      rw [hw] at hr
      cases hr
      exact count (hq.writeFrames (fun _ h => h.nextBuffered) taken hw)

theorem Inv.acks (h : Inv l) (hf : f ∈ l.manager.sent) (ha : Acks l.manager m' f.controlFrameId) (hv : Valid m') :
    Inv { l with manager := m', acked := f :: l.acked } := by
  refine ⟨hv, ha.last.trans h.last, ?_, h.unique, ?_, ?_, ?_, ?_, ?_, ?_, ?_, ?_, ?_⟩
  · intro g hg
    simp only [ha.last]
    exact h.ids g hg
  · intro g hg
    obtain ⟨hg, hne⟩ := (ha.outstanding g).1 hg
    refine ⟨(h.queued g hg).1, ?_⟩
    intro hm
    rcases mem_cons.1 hm with rfl | hm
    · exact hne rfl
    · exact (h.queued g hg).2 hm
  · intro g hg hna hsup
    simp only [mem_cons, not_or] at hna
    have hsup' : ¬l.Superseded g := fun hs => hsup (hs.mono rfl fun k hk => by rw [ha.sent]; exact hk)
    refine (ha.outstanding g).2 ⟨h.kept g hg hna.2 hsup', ?_⟩
    intro hid
    exact hna.1 (h.unique g hg f (h.sent_written f hf) hid)
  · intro g hg
    simp only [ha.sent] at hg
    exact h.sent_written g hg
  · intro g hg hlt
    simp only [ha.leastUnsent, ha.sent] at hlt ⊢
    exact h.sent_of_lt g hg hlt
  · intro g hg
    simp only [ha.sent]
    rcases mem_cons.1 hg with rfl | hg
    · exact hf
    · exact h.acked_sent g hg
  · intro g hg
    simp only [ha.sent]
    exact h.lost_sent g hg
  · intro g hg ho
    obtain ⟨ho, hne⟩ := (ha.outstanding g).1 ho
    exact (ha.pending _).2 ⟨h.lost_pending g hg ho, hne⟩
  · intro sid id hl
    simp only [ha.windows] at hl
    exact h.windows sid id hl
  · simp only [ha.sent, ha.leastUnsent]
    exact h.order

theorem Inv.forgetAcked (h : Inv l) (f : ControlFrame) : Inv { l with manager := l.manager.forgetAcked f } := by
  have hv := h.valid.forgetAcked f
  revert hv
  rw [QuicControlFrameManager.forgetAcked]
  split
  · split
    · intro hv
      refine { h with valid := hv, windows := ?_ }
      intro s id hs
      simp only [FlatMap.lookup_erase_eq] at hs
      split at hs
      · cases hs
      · exact h.windows s id hs
    · intro _
      exact h
  · intro hv
    exact { h with valid := hv }
  · intro _
    exact h

theorem sent_forgetAcked (m : QuicControlFrameManager) (f : ControlFrame) : (m.forgetAcked f).sent = m.sent := by
  rw [forgetAcked]
  split
  · split <;> rfl
  · rfl
  · rfl

section
variable (h : Inv l) {f : ControlFrame} {m' : QuicControlFrameManager} (hf : f ∈ l.manager.sent)
include h hf

theorem Inv.onControlFrameAcked (hr : l.manager.onControlFrameAcked f = .ok m') :
    Inv { l with manager := m', acked := f :: l.acked } ∧ m'.sent = l.manager.sent := by
  obtain ⟨m₁, b, hm1, hk, -⟩ := h.valid.onControlFrameIdAcked (h.valid.sentIds f hf)
  have ha := h.valid.acks hm1
  have h1 := h.acks hf ha hk.valid
  rw [QuicControlFrameManager.onControlFrameAcked] at hr
  simp only [hm1, bind, bind] at hr
  cases b with
  | true =>
    cases hr
    exact ⟨h1.forgetAcked f, (sent_forgetAcked m₁ f).trans ha.sent⟩
  | false =>
    cases hr
    exact ⟨h1, ha.sent⟩

theorem Inv.onControlFrameLost (hr : l.manager.onControlFrameLost f = .ok m') :
    Inv { l with manager := m', lost := f :: l.lost } ∧ m'.sent = l.manager.sent := by
  have hlt := h.valid.sentIds f hf
  have lose (ho : l.manager.Outstanding f → f.controlFrameId ∈ l.manager.pendingRetransmissions) :
      Inv { l with lost := f :: l.lost } := by
    refine { h with lost_sent := ?_, lost_pending := ?_ }
    · exact forall_mem_cons.2 ⟨hf, h.lost_sent⟩
    · exact forall_mem_cons.2 ⟨ho, h.lost_pending⟩
  obtain ⟨k, hk, hv⟩ := h.valid.onControlFrameLost hf
  obtain rfl : k = m' := ok.inj (hk.symm.trans hr)
  rw [onControlFrameLost, if_neg (not_le.2 hlt)] at hr
  by_cases h0 : f.controlFrameId = kInvalidControlFrameId
  · rw [if_pos h0] at hr
    cases hr
    exact ⟨lose fun ho => absurd h0 ho.1, rfl⟩
  by_cases h1 : f.controlFrameId < l.manager.leastUnacked
  · rw [if_neg h0, if_pos h1] at hr
    cases hr
    exact ⟨lose fun ho => absurd h1 (not_lt.2 ho.2.1), rfl⟩
  rw [if_neg h0, if_neg h1, index_eq (not_lt.1 h1) (h.valid.lt hlt)] at hr
  cases hg : l.manager.controlFrames[f.controlFrameId - l.manager.leastUnacked]? with
  | none =>
    rw [hg] at hr
    cases hr
  | some g =>
    rw [hg] at hr
    simp only at hr
    split at hr
    next hd =>
      cases hr
      refine ⟨lose ?_, rfl⟩
      intro ho
      obtain rfl := Option.some.inj (hg.symm.trans ho.2.2)
      rw [Bool.or_eq_true, isAcked_iff, contains_iff_mem] at hd
      exact hd.resolve_left ho.1
    · cases hr
      refine ⟨{ h with valid := hv, lost_sent := ?_, lost_pending := ?_ }, rfl⟩
      · exact forall_mem_cons.2 ⟨hf, h.lost_sent⟩
      · intro k hk ho
        rcases mem_cons.1 hk with rfl | hk
        · exact mem_append_right _ mem_cons_self
        · exact mem_append_left _ (h.lost_pending k hk ho)

end

/-! ## Steps -/

theorem toOption_eq_some {r : Result QuicControlFrameManager} {m : QuicControlFrameManager}
    (h : r.toOption = some m) : r = .ok m := by
  cases r with
  | error e => cases h
  | ok k => exact congrArg ok (Option.some.inj h)

structure Steps (l l' : Ledger) : Prop where
  inv : Inv l'
  fresh : ∀ f ∈ newlySent l.manager l'.manager, f ∉ l.acked

theorem Sent.fresh (h : Sent l m') : ∀ f ∈ newlySent l.manager m', f ∉ l.acked := by
  obtain ⟨new, hnew, hack⟩ := h.grows
  rw [newlySent_of_append hnew]
  exact hack

variable {c : Call}

theorem Inv.step (h : Inv l) (hid : l.manager.hasId c) (hs : l.step c = some l') : Steps l l' := by
  obtain ⟨m', hm, hl⟩ := Option.map_eq_some_iff.1 hs
  -- a call that sends nothing
  have quiet (hsent : m'.sent = l.manager.sent) : newlySent l.manager m' = [] := newlySent_of_append hsent
  cases c with
  | writeOrBuffer frame taken =>
    subst hl
    have hsent := h.writeOrBuffer hid (toOption_eq_some hm)
    exact ⟨hsent.inv, hsent.fresh⟩
  | onCanWrite taken =>
    subst hl
    have hsent := h.onCanWrite (toOption_eq_some hm)
    exact ⟨hsent.inv, hsent.fresh⟩
  | acked f =>
    subst hl
    obtain ⟨hf, hm⟩ := Option.ite_none_right_eq_some.1 hm
    obtain ⟨hinv, hsent⟩ := h.onControlFrameAcked hf (toOption_eq_some hm)
    rw [record, advance_eq hsent]
    refine ⟨hinv, ?_⟩
    simp [quiet hsent]
  | lost f =>
    subst hl
    obtain ⟨hf, hm⟩ := Option.ite_none_right_eq_some.1 hm
    obtain ⟨hinv, hsent⟩ := h.onControlFrameLost hf (toOption_eq_some hm)
    rw [record, advance_eq hsent]
    refine ⟨hinv, ?_⟩
    simp [quiet hsent]

def Allowed (l : Ledger) : Call → Prop
  | .writeOrBuffer _ _ => l.manager.controlFrames.length < kMaxNumControlFrames ∧ l.written.length + 2 < 2 ^ 32
  | .onCanWrite _ => True
  | .acked f => f ∈ l.manager.sent
  | .lost f => f ∈ l.manager.sent

theorem Inv.hasId (h : Inv l) (hc : l.Allowed c) : l.manager.hasId c := by
  cases c with
  | writeOrBuffer frame taken =>
    rw [QuicControlFrameManager.hasId, h.last]
    exact hc.2
  | _ => trivial

theorem Inv.total (h : Inv l) (hc : l.Allowed c) : ∃ l', l.step c = some l' := by
  have ok {r : Result QuicControlFrameManager} (hr : ∃ k, r = .ok k ∧ Valid k) :
      ∃ k, r.toOption = some k := by
    obtain ⟨k, rfl, -⟩ := hr
    exact ⟨k, rfl⟩
  have key : ∃ m', l.manager.step c = some m' := by
    cases c with
    | writeOrBuffer frame taken => exact ok (h.valid.writeOrBuffer frame taken hc.1 (h.hasId hc))
    | onCanWrite taken => exact ok (h.valid.onCanWrite taken)
    | acked f =>
      change f ∈ l.manager.sent at hc
      rw [QuicControlFrameManager.step, if_pos hc]
      exact ok (h.valid.onControlFrameAcked hc)
    | lost f =>
      change f ∈ l.manager.sent at hc
      rw [QuicControlFrameManager.step, if_pos hc]
      exact ok (h.valid.onControlFrameLost hc)
  obtain ⟨m', hm⟩ := key
  rw [Ledger.step, hm]
  exact ⟨_, rfl⟩

end

def Accounted (l : Ledger) (f : ControlFrame) : Prop :=
  l.manager.Outstanding f ∧
    (l.manager.leastUnsent ≤ f.controlFrameId ∨
      (f ∈ l.manager.sent ∧ f ∉ l.lost) ∨
      f.controlFrameId ∈ l.manager.pendingRetransmissions)

theorem Inv.accounted (h : Inv l) (hf : f ∈ l.written) (ha : f ∉ l.acked) (hsup : ¬l.Superseded f) : l.Accounted f := by
  have ho := h.kept f hf ha hsup
  refine ⟨ho, ?_⟩
  by_cases hlt : f.controlFrameId < l.manager.leastUnsent
  · by_cases hl : f ∈ l.lost
    · exact .inr (.inr (h.lost_pending f hl ho))
    · exact .inr (.inl ⟨h.sent_of_lt f hf hlt, hl⟩)
  · exact .inl (Nat.le_of_not_lt hlt)

/-! ## Whole runs -/

theorem Inv.next (h : l.written.length + 1 < 2 ^ 32 → Inv l) (hs : l.step c = some l')
    (hn : l'.written.length + 1 < 2 ^ 32) : Inv l' := by
  obtain ⟨m', hm, rfl⟩ := Option.map_eq_some_iff.1 hs
  cases c with
  | writeOrBuffer frame taken =>
    have hn : l.written.length + 2 < 2 ^ 32 := hn
    have hi := h (by omega)
    refine (hi.step ?_ hs).inv
    rw [QuicControlFrameManager.hasId, hi.last]
    exact hn
  | onCanWrite | acked | lost => exact ((h hn).step (by trivial) hs).inv

/-- **Neither lost nor invented.** After any calls within the buffering limit every frame that is not acknowledged is
queued, in flight or waiting to be sent again, unless a newer WINDOW_UPDATE of its stream was sent; as long as the
ids last. -/
theorem frames_accounted {cs : List Call} {l : Ledger} (hr : Lts.run step {} cs = some l)
    (hn : l.written.length + 1 < 2 ^ 32) :
    (l.manager.leastUnacked ≤ l.manager.leastUnsent ∧
      l.manager.leastUnsent ≤ l.manager.leastUnacked + l.manager.controlFrames.length) ∧
    (∀ c, l.Allowed c → ∃ l', l.step c = some l' ∧ ∀ f ∈ newlySent l.manager l'.manager, f ∉ l.acked) ∧
    (l.manager.sent.map (·.controlFrameId)).dedup = (List.range' 1 (l.manager.leastUnsent - 1)).reverse ∧
    (∀ f ∈ l.manager.sent, f ∈ l.written) ∧
    (∀ f ∈ l.written, f ∉ l.acked → ¬l.Superseded f → l.Accounted f) ∧
    ∀ f ∈ l.acked, f.controlFrameId ∉ l.manager.pendingRetransmissions := by
  have h : Inv l := Lts.run_inv (I := fun l => l.written.length + 1 < 2 ^ 32 → Inv l) (fun _ _ _ => Inv.next)
    (fun _ => inv_init) hr hn
  refine ⟨⟨h.valid.leastUnacked_le, h.valid.leastUnsent_le⟩, ?_, h.order, h.sent_written,
    fun f hf ha hs => h.accounted hf ha hs, ?_⟩
  · intro c hc
    obtain ⟨l', hs⟩ := h.total hc
    exact ⟨l', hs, (h.step (h.hasId hc) hs).fresh⟩
  intro f hf hp
  obtain ⟨hle, -, g, hg, hid⟩ := h.valid.pending _ hp
  have hpos := h.valid.pos
  have ho : l.manager.Outstanding g := ⟨by omega, by omega, by rw [hid]; exact hg⟩
  obtain ⟨hgw, hga⟩ := h.queued g ho
  rw [h.unique g hgw f (h.sent_written f (h.acked_sent f hf)) hid] at hga
  exact hga hf

def overtaken : List Call :=
  [.writeOrBuffer (.windowUpdate (some 4) 100) 1, .writeOrBuffer (.rstStream 8 .streamCancelled 3) 1,
    .lost ⟨1, .windowUpdate (some 4) 100⟩, .writeOrBuffer (.windowUpdate (some 4) 200) 1,
    .lost ⟨2, .rstStream 8 .streamCancelled 3⟩, .onCanWrite 5, .acked ⟨2, .rstStream 8 .streamCancelled 3⟩,
    .lost ⟨2, .rstStream 8 .streamCancelled 3⟩, .onCanWrite 5, .lost ⟨3, .windowUpdate (some 4) 200⟩]

theorem frames_accounted_overtaken : ∃ l, Lts.run step {} overtaken = some l ∧
    l.manager.sent.map (·.controlFrameId) = [2, 3, 2, 1] ∧ l.manager.leastUnacked ≤ l.manager.leastUnsent ∧
    l.Accounted ⟨3, .windowUpdate (some 4) 200⟩ ∧ 2 ∉ l.manager.pendingRetransmissions ∧
    ∃ l', l.step (.onCanWrite 5) = some l' ∧ newlySent l.manager l'.manager = [⟨3, .windowUpdate (some 4) 200⟩] ∧
      ⟨3, .windowUpdate (some 4) 200⟩ ∉ l.acked := by
  let l := (Lts.run step {} overtaken).getD {}
  have hr : Lts.run step {} overtaken = some l := rfl
  have hagain : (l.step (.onCanWrite 5)).map (fun l' => newlySent l.manager l'.manager) =
      some [⟨3, .windowUpdate (some 4) 200⟩] := by decide +kernel
  obtain ⟨hle, hnext, -, -, hkept, hack⟩ := frames_accounted hr (by decide +kernel)
  obtain ⟨l', hs, hnew⟩ := hnext (.onCanWrite 5) trivial
  rw [hs] at hagain
  have hagain : newlySent l.manager l'.manager = _ := Option.some.inj hagain
  refine ⟨l, hr, by decide +kernel, hle.1, hkept _ (by decide +kernel) (by decide +kernel) ?_,
    hack ⟨2, .rstStream 8 .streamCancelled 3⟩ (by decide +kernel), l', hs, hagain, hnew _ (hagain ▸ mem_cons_self)⟩
  rintro ⟨sid, -, g, hg, hlt, -⟩
  revert g
  decide +kernel

end Ledger

/-! ## The last id -/

/-- Between calls that have left nothing behind: `n` frames were sent and acknowledged. -/
def idle (n : Nat) (sent : List ControlFrame) : QuicControlFrameManager :=
  { lastControlFrameId := n, leastUnacked := n + 1, leastUnsent := n + 1, sent }

def acknowledged (n : Nat) : List Call :=
  (range n).flatMap fun i => [.writeOrBuffer .handshakeDone 1, .acked ⟨i + 1, .handshakeDone⟩]

section
variable {n : Nat} (sent : List ControlFrame)

theorem index_idle (hn : n + 2 < 2 ^ 32) (m : QuicControlFrameManager) (hm : m.leastUnacked = n + 1) :
    m.index (n + 1) = 0 := by
  rw [index_eq (Nat.le_of_eq hm) (Nat.lt_of_succ_lt hn), hm, Nat.sub_self]

theorem writeOrBuffer_idle (hn : n + 2 < 2 ^ 32) : (idle n sent).writeOrBuffer .handshakeDone 1 = .ok
    { controlFrames := [⟨n + 1, .handshakeDone⟩], lastControlFrameId := n + 1, leastUnacked := n + 1,
      leastUnsent := n + 2,
      sent := ⟨n + 1, .handshakeDone⟩ :: sent } := by
  have h1 : nextControlFrameId n = n + 1 := Nat.mod_eq_of_lt (by omega)
  have h2 : nextControlFrameId (n + 1) = n + 2 := Nat.mod_eq_of_lt hn
  simp [writeOrBuffer, idle, enqueue, hasBufferedFrames, kMaxNumControlFrames, writeBufferedFrames, writeFrames,
    nextBuffered, frameAt, index_idle hn, h1, h2, written, onControlFrameSent, noteWindowUpdate,
    kInvalidControlFrameId, countMaxStreams, bind, Except.bind, pure, Except.pure]

theorem acked_idle (hn : n + 2 < 2 ^ 32) : onControlFrameAcked
    { controlFrames := [⟨n + 1, .handshakeDone⟩], lastControlFrameId := n + 1, leastUnacked := n + 1,
      leastUnsent := n + 2,
      sent } ⟨n + 1, .handshakeDone⟩ = .ok (idle (n + 1) sent) := by
  have h2 : n + 1 + 1 < 4294967296 := hn
  simp [onControlFrameAcked, onControlFrameIdAcked, kInvalidControlFrameId, index_idle hn, h2, isAcked, markAcked,
    cleanUp, forgetAcked, idle, bind, Except.bind, pure, Except.pure]

end

theorem run_acknowledged : ∀ {n : Nat}, n + 1 < 2 ^ 32 → ∃ sent, Lts.run step {} (acknowledged n) = some (idle n sent)
  | 0, _ => ⟨[], rfl⟩
  | n + 1, hn => by
    obtain ⟨sent, hr⟩ := run_acknowledged (Nat.lt_of_succ_lt hn)
    refine ⟨⟨n + 1, .handshakeDone⟩ :: sent, ?_⟩
    rw [acknowledged, range_succ, flatMap_append, flatMap_singleton]
    refine Lts.run_append.2 ⟨_, hr, ?_⟩
    simp [Lts.run, step, writeOrBuffer_idle sent hn, acked_idle _ hn, Except.toOption]

theorem writeOrBuffer_lastId {n : Nat} (hn : n + 2 = 2 ^ 32) (sent : List ControlFrame) :
    (idle n sent).writeOrBuffer .handshakeDone 1 = .error .outOfRange := by
  have h1 : nextControlFrameId n = n + 1 := Nat.mod_eq_of_lt (by omega)
  have h2 : nextControlFrameId (n + 1) = 0 := by
    rw [nextControlFrameId, hn, Nat.mod_self]
  have h3 : ∀ m : QuicControlFrameManager, m.leastUnacked = n + 1 → m.index (n + 1) = 0 ∧ m.index 0 = 1 := by
    intro m hm
    unfold index
    omega
  simp [writeOrBuffer, idle, enqueue, hasBufferedFrames, kMaxNumControlFrames, writeBufferedFrames, writeFrames,
    nextBuffered, frameAt, h1, h2, h3, written, onControlFrameSent, noteWindowUpdate, kInvalidControlFrameId, bind,
    Except.bind, pure, Except.pure]

/-- The frame with the last id is sent, `least_unsent_` wraps to 0, and the loop looks for a second frame. -/
theorem last_id_out_of_range : ∃ m, Lts.run step {} (acknowledged (2 ^ 32 - 2)) = some m ∧
    m.controlFrames = [] ∧ m.writeOrBuffer .handshakeDone 1 = .error .outOfRange := by
  obtain ⟨sent, hr⟩ := run_acknowledged (n := 2 ^ 32 - 2) (by decide)
  exact ⟨_, hr, rfl, writeOrBuffer_lastId (by decide) sent⟩

end QuicControlFrameManager

end Quictun
