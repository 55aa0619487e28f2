import Quictun.SendStream
import Quictun.SessionCredit

/-!
# Flow control between two endpoints

One endpoint sends on any number of streams, the other receives. A STREAM or RESET_STREAM
frame that has been sent may arrive at any time, any number of times, or never. A window
update may carry any value up to the current limit, which covers lost, repeated, late and
reordered updates, since the limits only grow.

The ledger part of the state (`ids`, `learned`, `charged`, `credited`) notes what each
stream has added to the session's counters; no behaviour depends on it.
-/

namespace Quictun

open Function Option Finset

inductive DataFrame
  | stream (id offset length : Nat) (fin : Bool)
  | rstStream (id byteOffset : Nat)
deriving DecidableEq

namespace DataFrame

def id : DataFrame → Nat
  | .stream id _ _ _ => id
  | .rstStream id _ => id

def action : DataFrame → StreamAction
  | .stream _ offset length fin => .streamFrame offset length fin
  | .rstStream _ byteOffset => .rstStream byteOffset

end DataFrame

structure FlowSystem where
  sending : Nat → SendStream
  connection : SendFlowController
  sent : List DataFrame := []
  session : QuicSession
  ids : Finset Nat := ∅
  learned : Nat → Bool := fun _ => false
  charged : Nat → Nat := fun _ => 0
  credited : Nat → Nat := fun _ => 0

namespace FlowSystem

inductive Event
  | writeOrBufferData (id length : Nat) (fin yield : Bool) (d : QuicConsumedData)
  | onCanWrite (id : Nat) (yield : Bool) (d : QuicConsumedData)
  | resetStream (id : Nat)
  /-- A piece of what was written goes out in a frame of its own: a retransmission, or one packet's part of a write. -/
  | resend (id offset length : Nat) (fin : Bool)
  | windowUpdate (id maxData : Nat)
  | connectionWindowUpdate (maxData : Nat)
  | deliver (f : DataFrame)
  | act (id : Nat) (a : StreamAction)
deriving DecidableEq

variable (s : FlowSystem)

def written (id : Nat) : Nat := (s.sending id).streamBytesWritten

def setSending (id : Nat) (st : SendStream) : FlowSystem := { s with sending := update s.sending id st }

def sends (id : Nat) (r : WriteResult) (frames : List DataFrame) : FlowSystem :=
  { s.setSending id r.stream with connection := r.connection, sent := frames ++ s.sent, ids := insert id s.ids }

def wrote (id : Nat) (r : WriteResult) : FlowSystem :=
  s.sends id r (r.frame.map fun f => DataFrame.stream id f.offset f.length f.fin).toList

def record (id : Nat) (a : StreamAction) (v : Receiver) : FlowSystem :=
  { s with
    session := s.session.put id v
    ids := insert id s.ids
    learned := update s.learned id (s.learned id || a.isFinal)
    charged := update s.charged id (s.charged id + v.session.highestReceivedByteOffset -
      s.session.flowController.highestReceivedByteOffset)
    credited := update s.credited id
      (s.credited id + v.session.bytesConsumed - s.session.flowController.bytesConsumed) }

def receive (id : Nat) (a : StreamAction) : FlowSystem :=
  match (s.session.receiver id).act a with
  | .ok v => s.record id a v
  | .error e => { s with session := { s.session with error := some e } }

def step (e : Event) : Option FlowSystem :=
  if s.session.error.isSome then none
  else match e with
    | .writeOrBufferData id length fin yield d =>
      some (s.wrote id ((s.sending id).writeOrBufferData s.connection length fin yield d))
    | .onCanWrite id yield d => some (s.wrote id ((s.sending id).onCanWrite s.connection yield d))
    | .resetStream id =>
      some (s.sends id { stream := { s.sending id with writeSideClosed := true }, connection := s.connection }
        [.rstStream id (s.written id)])
    | .resend id offset length fin =>
      if offset + length ≤ s.written id ∧
        (fin = true → (s.sending id).finSent = true ∧ offset + length = s.written id) then
        some (s.sends id { stream := s.sending id, connection := s.connection } [.stream id offset length fin])
      else none
    | .windowUpdate id maxData =>
      if maxData ≤ (s.session.receiver id).stream.flowController.receiveWindowOffset then
        some (s.setSending id { s.sending id with
          flowController := ((s.sending id).flowController.updateSendWindowOffset maxData).1 })
      else none
    | .connectionWindowUpdate maxData =>
      if maxData ≤ s.session.flowController.receiveWindowOffset then
        some { s with connection := (s.connection.updateSendWindowOffset maxData).1 }
      else none
    | .deliver f => if f ∈ s.sent then some (s.receive f.id f.action) else none
    | .act id a => if a.sentTo = none then some (s.receive id a) else none

/-- The send windows are the peer's receive windows. A stream that has not been used yet is there from the start. -/
def init (sessionWindow : Nat) (streamWindow : Nat → Nat) : FlowSystem :=
  { sending := fun id => { flowController := { sendWindowOffset := streamWindow id } }
    connection := { sendWindowOffset := sessionWindow }
    session :=
      { streams := fun id => some
          { flowController := { receiveWindowOffset := streamWindow id, receiveWindowSize := streamWindow id } }
        flowController := { receiveWindowOffset := sessionWindow, receiveWindowSize := sessionWindow }
        streamWindow := 0 } }

end FlowSystem

namespace Receiver

section
variable {P : Prop} {F S W bh bc : Nat} {learned : Bool}

variable {v : Receiver}

theorem Credit.grow (h : v.Credit ⟨False, S, S, W, bh, bc⟩ learned) {S' : Nat} (hS : S ≤ S')
    (hl : learned = true → S' = S) (hroom : S' ≤ v.stream.flowController.receiveWindowOffset) :
    v.Credit ⟨False, S', S', W, bh, bc⟩ learned := by
  cases learned with
  | true =>
    rw [hl rfl]
    exact h
  | false =>
    have h' := h.mono hS hroom
    cases h' with
    | reading h =>
      have hf : v.stream.finReceived = false := h.learned.symm
      have hc := h.closeOffset
      rw [hf] at hc
      refine .reading { h with isOpen := { h.isOpen with }, closeOffset := ?_ }
      rw [hf]
      exact hc
    | drained h => cases h.learned
    | closed h =>
      obtain ⟨x, hx, hh, hc, hlc | ⟨_, hl', _⟩⟩ := h.share
      · exact .closed { h with share := ⟨x, hx, hh, hc, .inl hlc⟩ }
      · cases hl'

theorem Credit.credited_le {charged credited : Nat}
    (h : (v.alone charged credited).Credit ⟨P, F, S, W, 0, 0⟩ learned) : credited ≤ charged ∧ charged ≤ S := by
  obtain ⟨x, y, hx, hh, hc, hy⟩ := h.share
  dsimp only at hx
  have hx' : charged = 0 + x := hh
  have hy' : credited = 0 + y := hc
  split at hy
  · omega
  next hcl =>
    have ho := h.isOpen (Bool.eq_false_iff.2 hcl)
    have h1 := ho.consumed_le
    have h2 : charged = 0 + (v.alone charged credited).highest := ho.charged
    omega

end

end Receiver

namespace FlowSystem

/-! ## The invariant -/

def Genuine (s : FlowSystem) (f : DataFrame) : Prop :=
  ∀ n ∈ f.action.sentTo, n ≤ s.written f.id ∧
    (f.action.isFinal = true → n = s.written f.id ∧ (s.sending f.id).writeSideClosed = true)

structure Inv (s : FlowSystem) : Prop where
  fresh : ∀ id, id ∉ s.ids → s.written id = 0 ∧ s.charged id = 0 ∧ s.credited id = 0
  credit : ∀ id, ((s.session.receiver id).alone (s.charged id) (s.credited id)).Credit
    ⟨False, s.written id, s.written id, s.session.flowController.receiveWindowOffset, 0, 0⟩ (s.learned id)
  windows : ∀ id, (s.session.receiver id).Windows
  charged : s.session.flowController.highestReceivedByteOffset = ∑ id ∈ s.ids, s.charged id
  credited : s.session.flowController.bytesConsumed = ∑ id ∈ s.ids, s.credited id
  bytesSent : ∀ id, (s.sending id).flowController.bytesSent = s.written id
  sendWindow : ∀ id, s.written id ≤ (s.sending id).flowController.sendWindowOffset ∧
    (s.sending id).flowController.sendWindowOffset ≤ (s.session.receiver id).stream.flowController.receiveWindowOffset
  connectionBytesSent : s.connection.bytesSent = ∑ id ∈ s.ids, s.written id
  connectionWindow : s.connection.bytesSent ≤ s.connection.sendWindowOffset ∧
    s.connection.sendWindowOffset ≤ s.session.flowController.receiveWindowOffset
  finished : ∀ id, s.learned id = true ∨ (s.sending id).finSent = true → (s.sending id).writeSideClosed = true
  genuine : ∀ f ∈ s.sent, s.Genuine f

theorem init_inv (sessionWindow : Nat) (streamWindow : Nat → Nat) : (init sessionWindow streamWindow).Inv := by
  have hb : ∀ n, QuicFlowController.InBounds { receiveWindowOffset := n, receiveWindowSize := n } := by
    intro n
    refine ⟨Nat.zero_le _, ?_, ?_⟩ <;> dsimp only <;> omega
  refine ⟨fun id _ => ⟨rfl, rfl, rfl⟩, fun id => .reading ?_, fun id => ⟨hb _, hb _⟩, rfl, rfl, fun id => rfl,
    fun id => ⟨Nat.zero_le _, le_rfl⟩, rfl, ⟨Nat.zero_le _, le_rfl⟩, ?_, ?_⟩
  · refine ⟨⟨rfl, rfl, rfl, le_rfl, le_rfl, Nat.zero_le _, le_rfl⟩, rfl, ?_, rfl, rfl, rfl, rfl⟩
    exact ⟨trivial, le_rfl, fun e he => absurd he List.not_mem_nil⟩
  · rintro id (h | h) <;> cases h
  · intro f hf
    cases hf

/-! ## The sender -/

theorem written_sends (s : FlowSystem) {id : Nat} {r : WriteResult} {n : Nat}
    (hr : r.stream.streamBytesWritten = s.written id + n) (frames : List DataFrame) :
    (s.sends id r frames).written = update s.written id (s.written id + n) := by
  funext j
  by_cases hj : j = id
  · subst hj
    simpa [written, sends, setSending] using hr
  · simp [written, sends, setSending, hj]

section
variable {s : FlowSystem} (h : s.Inv) {id n : Nat} {r : WriteResult} (hr : (s.sending id).Sends s.connection r n)
include h hr

theorem Inv.sends {frames : List DataFrame}
    (hframes : ∀ f ∈ frames, f.id = id ∧ ∀ m ∈ f.action.sentTo, m ≤ s.written id + n ∧
      (f.action.isFinal = true → m = s.written id + n ∧ r.stream.writeSideClosed = true)) :
    (s.sends id r frames).Inv := by
  have hw := s.written_sends hr.written frames
  have hself : (s.sends id r frames).sending id = r.stream := by simp [FlowSystem.sends, setSending]
  have hother : ∀ j, j ≠ id → (s.sends id r frames).sending j = s.sending j := by
    intro j hj
    simp [FlowSystem.sends, setSending, hj]
  have hbs := h.bytesSent id
  have hsw := h.sendWindow id
  have hle := hr.le_stream
  have hcw := h.connectionWindow
  have hlc := hr.le_connection
  unfold SendFlowController.sendWindowSize at hle hlc
  -- once a final size is known nothing more is written
  have hstop : s.learned id = true → n = 0 := fun hl => (hr.stopped (h.finished id (.inl hl))).2
  constructor
  · intro j hj
    have hne : j ≠ id := fun hje => hj (hje ▸ mem_insert_self id s.ids)
    rw [hw, update_of_ne hne]
    exact h.fresh j fun hji => hj (mem_insert_of_mem hji)
  · intro j
    rw [hw]
    by_cases hj : j = id
    · subst hj
      rw [update_self]
      refine (h.credit j).grow (Nat.le_add_right _ _) (fun hl => by rw [hstop hl, add_zero]) ?_
      exact le_trans (by omega) hsw.2
    · rw [update_of_ne hj]
      exact h.credit j
  · exact h.windows
  · exact h.charged.trans (sum_insert_of_eq_zero_if_notMem fun hi => (h.fresh id hi).2.1).symm
  · exact h.credited.trans (sum_insert_of_eq_zero_if_notMem fun hi => (h.fresh id hi).2.2).symm
  · intro j
    rw [hw]
    by_cases hj : j = id
    · subst hj
      rw [hself, hr.flowController, update_self]
      exact congrArg (· + n) hbs
    · rw [hother j hj, update_of_ne hj]
      exact h.bytesSent j
  · intro j
    rw [hw]
    by_cases hj : j = id
    · subst hj
      rw [hself, hr.flowController, update_self]
      exact ⟨by dsimp only; omega, hsw.2⟩
    · rw [hother j hj, update_of_ne hj]
      exact h.sendWindow j
  · have hsum := Ledger.sum_eq_add_erase fun hi => (h.fresh id hi).1
    have hcb := h.connectionBytesSent
    rw [show (s.sends id r frames).connection = r.connection from rfl, hr.connection, hw,
      show (s.sends id r frames).ids = insert id s.ids from rfl, Ledger.sum_update]
    dsimp only
    omega
  · rw [show (s.sends id r frames).connection = r.connection from rfl, hr.connection]
    exact ⟨by dsimp only; omega, hcw.2⟩
  · intro j hj
    by_cases hji : j = id
    · subst hji
      rw [hself] at hj ⊢
      rcases hj with hl | hf
      · exact (hr.stopped (h.finished j (.inl hl))).1
      · rcases hr.finished hf with hf | hc
        · exact (hr.stopped (h.finished j (.inr hf))).1
        · exact hc
    · rw [hother j hji] at hj ⊢
      exact h.finished j hj
  · intro f hf
    rcases List.mem_append.1 hf with hf | hf
    · obtain ⟨rfl, hg⟩ := hframes f hf
      intro m hm
      rw [hw, update_self, hself]
      exact hg m hm
    · intro m hm
      obtain ⟨hm1, hm2⟩ := h.genuine f hf m hm
      rw [hw]
      by_cases hj : f.id = id
      · subst hj
        rw [update_self, hself]
        refine ⟨le_trans hm1 (Nat.le_add_right _ _), fun hfin => ?_⟩
        obtain ⟨hm, hc⟩ := hm2 hfin
        obtain ⟨hc', hn⟩ := hr.stopped hc
        exact ⟨by omega, hc'⟩
      · rw [update_of_ne hj, hother _ hj]
        exact ⟨hm1, hm2⟩

theorem Inv.wrote : (s.wrote id r).Inv := by
  refine h.sends hr fun f hf => ?_
  obtain ⟨g, hg, rfl⟩ := map_eq_some_iff.1 (mem_toList.1 hf)
  obtain ⟨hend, hfin⟩ := hr.frame g hg
  refine ⟨rfl, fun m hm => ?_⟩
  cases hm
  rw [hend, hr.written]
  exact ⟨le_rfl, fun hf => ⟨rfl, hfin hf⟩⟩

end

variable {s : FlowSystem}

theorem Inv.resetStream (h : s.Inv) (id : Nat) :
    (s.sends id { stream := { s.sending id with writeSideClosed := true }, connection := s.connection }
      [.rstStream id (s.written id)]).Inv := by
  refine @Inv.sends s h id 0 _ ⟨rfl, rfl, rfl, Nat.zero_le _, Nat.zero_le _, fun _ => ⟨rfl, rfl⟩, fun _ => .inr rfl,
    ?_⟩ _ ?_
  · intro f hf
    cases hf
  · intro f hf
    obtain rfl := List.mem_singleton.1 hf
    refine ⟨rfl, fun m hm => ?_⟩
    cases hm
    exact ⟨le_rfl, fun _ => ⟨rfl, rfl⟩⟩

theorem Inv.resend (h : s.Inv) {id offset length : Nat} {fin : Bool} (hle : offset + length ≤ s.written id)
    (hfin : fin = true → (s.sending id).finSent = true ∧ offset + length = s.written id) :
    (s.sends id { stream := s.sending id, connection := s.connection } [.stream id offset length fin]).Inv := by
  refine h.sends (SendStream.sends_nothing rfl rfl rfl rfl rfl rfl) fun f hf => ?_
  obtain rfl := List.mem_singleton.1 hf
  refine ⟨rfl, fun m hm => ?_⟩
  cases hm
  refine ⟨hle, fun hf => ?_⟩
  obtain ⟨hfs, he⟩ := hfin hf
  exact ⟨he, h.finished id (.inr hfs)⟩

theorem Inv.windowUpdate (h : s.Inv) {id maxData : Nat}
    (hle : maxData ≤ (s.session.receiver id).stream.flowController.receiveWindowOffset) :
    (s.setSending id { s.sending id with
      flowController := ((s.sending id).flowController.updateSendWindowOffset maxData).1 }).Inv := by
  rw [SendFlowController.updateSendWindowOffset_eq, setSending]
  generalize hg : update s.sending id _ = g
  have hsend : ∀ j, ∃ n, g j = { s.sending j with flowController := { (s.sending j).flowController with
      sendWindowOffset := n } } ∧ (s.sending j).flowController.sendWindowOffset ≤ n ∧
      n ≤ (s.session.receiver j).stream.flowController.receiveWindowOffset := by
    intro j
    rw [← hg]
    by_cases hj : j = id
    · subst hj
      exact ⟨_, update_self .., le_max_left _ _, max_le (h.sendWindow j).2 hle⟩
    · exact ⟨_, update_of_ne hj .., le_rfl, (h.sendWindow j).2⟩
  have hw : ({ s with sending := g } : FlowSystem).written = s.written := funext fun j => by
    obtain ⟨n, hn, -⟩ := hsend j
    simp only [written, hn]
  refine { h with
    fresh := hw ▸ h.fresh
    credit := hw ▸ h.credit
    bytesSent := fun j => ?_
    sendWindow := fun j => ?_
    connectionBytesSent := hw ▸ h.connectionBytesSent
    finished := fun j => ?_
    genuine := fun f hf m hm => ?_ }
  · obtain ⟨n, hn, -⟩ := hsend j
    simpa only [hw, hn] using h.bytesSent j
  · obtain ⟨n, hn, h1, h2⟩ := hsend j
    simp only [hw, hn]
    exact ⟨le_trans (h.sendWindow j).1 h1, h2⟩
  · obtain ⟨n, hn, -⟩ := hsend j
    simpa only [hn] using h.finished j
  · obtain ⟨n, hn, -⟩ := hsend f.id
    simpa only [hw, hn] using h.genuine f hf m hm

/-! ## The receiver -/

section
variable {s : FlowSystem}

theorem Inv.within (h : s.Inv) (id : Nat) :
    s.session.flowController.highestReceivedByteOffset = ∑ j ∈ s.ids.erase id, s.charged j + s.charged id ∧
      s.session.flowController.bytesConsumed = ∑ j ∈ s.ids.erase id, s.credited j + s.credited id ∧
      ∑ j ∈ s.ids.erase id, s.credited j ≤ ∑ j ∈ s.ids.erase id, s.charged j ∧
      ∑ j ∈ s.ids.erase id, s.charged j + s.written id ≤ s.session.flowController.receiveWindowOffset := by
  have hle : ∀ j, s.credited j ≤ s.charged j ∧ s.charged j ≤ s.written j := fun j => (h.credit j).credited_le
  have hh := h.charged
  have hc := h.credited
  have hw := h.connectionBytesSent
  have hcw := h.connectionWindow
  rw [Ledger.sum_eq_add_erase fun hi => (h.fresh id hi).2.1] at hh
  rw [Ledger.sum_eq_add_erase fun hi => (h.fresh id hi).2.2] at hc
  rw [Ledger.sum_eq_add_erase fun hi => (h.fresh id hi).1] at hw
  have h1 : ∑ j ∈ s.ids.erase id, s.credited j ≤ ∑ j ∈ s.ids.erase id, s.charged j := sum_le_sum fun j _ => (hle j).1
  have h2 : ∑ j ∈ s.ids.erase id, s.charged j ≤ ∑ j ∈ s.ids.erase id, s.written j := sum_le_sum fun j _ => (hle j).2
  refine ⟨hh.trans (add_comm _ _), hc.trans (add_comm _ _), h1, ?_⟩
  omega

theorem Inv.record (h : s.Inv) {id : Nat} {a : StreamAction} {v : Receiver}
    (ha : ∀ n ∈ a.sentTo, n ≤ s.written id ∧ (a.isFinal = true → n = s.written id))
    (hfin : a.isFinal = true → (s.sending id).writeSideClosed = true)
    (hv : (s.session.receiver id).act a = .ok v) :
    (s.record id a v).Inv ∧ (s.session.receiver id).Flows v := by
  obtain ⟨hh, hc, hle, hroom⟩ := h.within id
  have hin := Receiver.Credit.within (v := s.session.receiver id) (h.credit id) hh hc
  have hflow := (hin.act hroom le_rfl ha False.elim hv).flows hle (h.windows id)
  obtain ⟨x, y, hx, hy, hvh, hvc, hrw, hout⟩ :=
    Receiver.Credit.act_within (v := s.session.receiver id) (h.credit id) hh hc hroom le_rfl ha False.elim hv
  have hcharged : (s.record id a v).charged = update s.charged id x := congrArg (update s.charged id) hx
  have hcredited : (s.record id a v).credited = update s.credited id y := congrArg (update s.credited id) hy
  have hself : (s.record id a v).session.receiver id = v := Ledger.receiver_put s.session id v
  have hother :
    ∀ j, j ≠ id → (s.record id a v).session.receiver j = { s.session.receiver j with session := v.session } := by
    intro j hj
    simp [FlowSystem.record, QuicSession.receiver, QuicSession.put, hj]
  refine ⟨?_, hflow⟩
  constructor
  · intro j hj
    have hne : j ≠ id := fun hje => hj (hje ▸ mem_insert_self id s.ids)
    rw [hcharged, hcredited, update_of_ne hne, update_of_ne hne]
    exact h.fresh j fun hji => hj (mem_insert_of_mem hji)
  · intro j
    rw [hcharged, hcredited]
    by_cases hj : j = id
    · subst hj
      rw [hself, update_self, update_self, show (s.record j a v).learned j =
        (s.learned j || a.isFinal) from update_self ..]
      exact hout
    · rw [hother j hj, update_of_ne hj, update_of_ne hj, show (s.record id a v).learned j =
        s.learned j from update_of_ne hj ..]
      exact (h.credit j).rebase (fun z hz => hz) (fun z hz => hz) le_rfl
  · intro j
    have hwv := (h.windows id).flows hflow
    by_cases hj : j = id
    · subst hj
      rw [hself]
      exact hwv
    · rw [hother j hj]
      exact ⟨(h.windows j).stream, hwv.session⟩
  · rw [hcharged]
    exact hvh.trans ((add_comm _ _).trans (Ledger.sum_update s.ids s.charged id x).symm)
  · rw [hcredited]
    exact hvc.trans ((add_comm _ _).trans (Ledger.sum_update s.ids s.credited id y).symm)
  · exact h.bytesSent
  · intro j
    by_cases hj : j = id
    · subst hj
      rw [hself]
      exact ⟨(h.sendWindow j).1, le_trans (h.sendWindow j).2 hflow.stream.offset_le⟩
    · rw [hother j hj]
      exact h.sendWindow j
  · exact h.connectionBytesSent.trans (sum_insert_of_eq_zero_if_notMem fun hi => (h.fresh id hi).1).symm
  · exact ⟨h.connectionWindow.1, le_trans h.connectionWindow.2 hrw⟩
  · rintro j (hl | hf)
    · by_cases hj : j = id
      · subst hj
        rw [show (s.record j a v).learned j = (s.learned j || a.isFinal) from update_self .., Bool.or_eq_true] at hl
        exact hl.elim (fun hl => h.finished j (.inl hl)) hfin
      · rw [show (s.record id a v).learned j = s.learned j from update_of_ne hj ..] at hl
        exact h.finished j (.inl hl)
    · exact h.finished j (.inr hf)
  · exact h.genuine

structure Moves (s s' : FlowSystem) : Prop where
  stream : ∀ id, (s.session.receiver id).stream.flowController.Evolves (s'.session.receiver id).stream.flowController
  session : s.session.flowController.Evolves s'.session.flowController
  error : s'.session.error ≠ some .flowControlReceivedTooMuchData

variable {s' : FlowSystem}

theorem moves_of_session (he : s.session.error.isSome = false) (h : s'.session = s.session) : s.Moves s' := by
  rw [isSome_eq_false_iff, isNone_iff_eq_none] at he
  refine ⟨fun id => ?_, ?_, ?_⟩
  · rw [h]
    exact .refl
  · rw [h]
    exact .refl
  · rw [h, he]
    rintro ⟨⟩

theorem Inv.receive (h : s.Inv) (he : s.session.error.isSome = false) {id : Nat} {a : StreamAction}
    (ha : ∀ n ∈ a.sentTo, n ≤ s.written id ∧ (a.isFinal = true → n = s.written id))
    (hfin : a.isFinal = true → (s.sending id).writeSideClosed = true) :
    (s.receive id a).Inv ∧ s.Moves (s.receive id a) := by
  unfold FlowSystem.receive
  cases hv : (s.session.receiver id).act a with
  | ok v =>
    obtain ⟨hi, hflow⟩ := h.record ha hfin hv
    refine ⟨hi, fun j => ?_, hflow.session, ?_⟩
    · by_cases hj : j = id
      · subst hj
        rw [show (s.record j a v).session.receiver j = v from Ledger.receiver_put s.session j v]
        exact hflow.stream
      · have hr : ((s.record id a v).session.receiver j).stream = (s.session.receiver j).stream := by
          simp [FlowSystem.record, QuicSession.receiver, QuicSession.put, hj]
        rw [hr]
        exact .refl
    · rw [isSome_eq_false_iff, isNone_iff_eq_none] at he
      rw [show (s.record id a v).session.error = s.session.error from rfl, he]
      rintro ⟨⟩
  | error e =>
    obtain ⟨hh, hc, -, hroom⟩ := h.within id
    have hin := Receiver.Credit.within (v := s.session.receiver id) (h.credit id) hh hc
    exact ⟨{ h with }, fun j => .refl, .refl, fun he => hin.act_error hroom ha hv (some.inj he)⟩

theorem step_inv {e : Event} (h : s.Inv) (hs : s.step e = some s') : s'.Inv ∧ s.Moves s' := by
  unfold step at hs
  obtain ⟨he, hs⟩ := ite_none_left_eq_some.1 hs
  rw [Bool.not_eq_true] at he
  have hstream : ∀ id, (s.sending id).flowController.bytesSent ≤ (s.sending id).flowController.sendWindowOffset :=
    fun id => (h.bytesSent id).symm ▸ (h.sendWindow id).1
  cases e with
  | writeOrBufferData id length fin yield d =>
    cases hs
    obtain ⟨n, hn⟩ := SendStream.sends_writeOrBufferData (hstream id) h.connectionWindow.1 length fin yield d
    exact ⟨h.wrote hn, moves_of_session he rfl⟩
  | onCanWrite id yield d =>
    cases hs
    obtain ⟨n, hn⟩ := SendStream.sends_onCanWrite (hstream id) h.connectionWindow.1 yield d
    exact ⟨h.wrote hn, moves_of_session he rfl⟩
  | resetStream id =>
    cases hs
    exact ⟨h.resetStream id, moves_of_session he rfl⟩
  | resend id offset length fin =>
    obtain ⟨hc, ⟨⟩⟩ := ite_none_right_eq_some.1 hs
    exact ⟨h.resend hc.1 hc.2, moves_of_session he rfl⟩
  | windowUpdate id maxData =>
    obtain ⟨hc, ⟨⟩⟩ := ite_none_right_eq_some.1 hs
    exact ⟨h.windowUpdate hc, moves_of_session he rfl⟩
  | connectionWindowUpdate maxData =>
    obtain ⟨hc, ⟨⟩⟩ := ite_none_right_eq_some.1 hs
    rw [SendFlowController.updateSendWindowOffset_eq]
    refine ⟨{ h with connectionWindow := ?_ }, moves_of_session he rfl⟩
    exact ⟨le_trans h.connectionWindow.1 (le_max_left _ _), max_le h.connectionWindow.2 hc⟩
  | deliver f =>
    obtain ⟨hc, ⟨⟩⟩ := ite_none_right_eq_some.1 hs
    have hg := h.genuine f hc
    refine h.receive he (fun n hn => ⟨(hg n hn).1, fun hf => ((hg n hn).2 hf).1⟩) fun hf => ?_
    cases f with
    | stream | rstStream => exact ((hg _ rfl).2 hf).2
  | act id a =>
    obtain ⟨hc, ⟨⟩⟩ := ite_none_right_eq_some.1 hs
    refine h.receive he (fun n hn => ?_) fun hf => ?_
    · rw [hc] at hn
      cases hn
    · cases a <;> simp [StreamAction.isFinal, StreamAction.sentTo] at hf hc

theorem Inv.no_violation (h : s.Inv) : s.session.flowController.flowControlViolation = false ∧
    ∀ id, (s.session.receiver id).stream.closed = false →
      (s.session.receiver id).stream.flowController.flowControlViolation = false := by
  constructor
  · -- what the streams were charged for is at most what was sent on them
    have hle : ∑ id ∈ s.ids, s.charged id ≤ ∑ id ∈ s.ids, s.written id :=
      sum_le_sum fun id _ => (h.credit id).credited_le.2
    have h1 := h.charged
    have h2 := h.connectionBytesSent
    have h3 := h.connectionWindow
    rw [QuicFlowController.flowControlViolation, decide_eq_false_iff_not]
    omega
  · intro id hc
    have ho := (h.credit id).isOpen hc
    have hle : (s.session.receiver id).highest ≤ (s.session.receiver id).stream.flowController.receiveWindowOffset :=
      le_trans ho.highest_le ho.streamRoom
    rw [QuicFlowController.flowControlViolation, decide_eq_false_iff_not]
    exact not_lt.2 hle

end

/-! ## Whole runs -/

/-- **Flow control is safe.** No frame of the sender is ever seen as a violation, and the limits stay between half a
window and a whole one ahead of what has been consumed. -/
theorem never_violated {sessionWindow : Nat} {streamWindow : Nat → Nat} {es : List Event} {s : FlowSystem}
    (hrun : Lts.run step (init sessionWindow streamWindow) es = some s) :
    s.session.error ≠ some .flowControlReceivedTooMuchData ∧
      s.session.flowController.flowControlViolation = false ∧
      (∀ id, (s.session.receiver id).stream.closed = false →
        (s.session.receiver id).stream.flowController.flowControlViolation = false) ∧
      s.session.flowController.InBounds ∧ (∀ id, (s.session.receiver id).stream.flowController.InBounds) ∧
      ∀ e s', s.step e = some s' →
        s.session.flowController.Evolves s'.session.flowController ∧
        s.session.flowController.receiveWindowOffset ≤ s'.session.flowController.receiveWindowOffset ∧
        ∀ id, (s.session.receiver id).stream.flowController.Evolves (s'.session.receiver id).stream.flowController ∧
          (s.session.receiver id).stream.flowController.receiveWindowOffset ≤
            (s'.session.receiver id).stream.flowController.receiveWindowOffset := by
  have hi : s.Inv ∧ s.session.error ≠ some .flowControlReceivedTooMuchData := by
    refine Lts.run_inv (I := fun s => s.Inv ∧ s.session.error ≠ some .flowControlReceivedTooMuchData)
      (fun s e s' h hs => ?_) ⟨init_inv _ _, fun h => by cases h⟩ hrun
    have hstep := step_inv h.1 hs
    exact ⟨hstep.1, hstep.2.error⟩
  obtain ⟨hi, herr⟩ := hi
  refine ⟨herr, hi.no_violation.1, hi.no_violation.2, (hi.windows 0).session, fun id => (hi.windows id).stream, ?_⟩
  intro e s' hs
  have hm := (step_inv hi hs).2
  exact ⟨hm.session, hm.session.offset_le, fun id => ⟨hm.stream id, (hm.stream id).offset_le⟩⟩

def twoStreams : List Event :=
  [.writeOrBufferData 0 15 false false ⟨10, false⟩, .writeOrBufferData 4 8 true false ⟨8, true⟩, .resend 0 0 6 false,
    .deliver (.stream 0 0 6 false), .deliver (.stream 0 0 10 false), .act 0 (.read 8), .windowUpdate 0 18,
    .onCanWrite 0 false ⟨5, false⟩, .deliver (.stream 0 0 6 false), .deliver (.stream 4 0 8 true), .resetStream 0,
    .act 4 (.read 512), .deliver (.rstStream 0 10), .connectionWindowUpdate 26]

theorem never_violated_twoStreams : ∃ s, Lts.run step (init 18 fun _ => 10) twoStreams = some s ∧
    s.session.error ≠ some .flowControlReceivedTooMuchData ∧ s.session.flowController.flowControlViolation = false := by
  refine ⟨_, rfl, ?_⟩
  have h := @never_violated 18 (fun _ => 10) twoStreams _ rfl
  exact ⟨h.1, h.2.1⟩

end FlowSystem

end Quictun
