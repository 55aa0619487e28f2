import Quictun.AcceptedTcpSocket

/-!
# What the accepted TCP socket promises its visitor

Each direction has a side condition that ties its variables to the history of its calls. A
receive changes nothing in the condition on sends and the other way round, so the conditions are
over the values of the fields and not over the socket.
-/

namespace Quictun

open Async Calls Option List
open Udp (QuicSocketEventMask kSocketEventReadable kSocketEventWritable kSocketEventError)
open AcceptedTcp

namespace AcceptedTcp

/-! ## One direction -/

def ReceiveDone (maxSize : Nat) (r : StatusOr Bytes) : Prop := ∀ data, r = .ok data → data.length ≤ maxSize

def SendDone (a : Sending) (r : StatusOr Unit) : Prop :=
  a.accepted <+: a.data ∧ (r = .ok () → a.accepted = a.data)

structure ReceiveSide (asked : List Nat) (maxSize : Option Nat) (receives : Calls Nat (StatusOr Bytes))
    (bytes : Bytes) :
    Prop where
  asked : receives.gather (fun c => [c.argument]) = asked
  bytes : bytes = receives.gather receivedData
  phase : match maxSize with
    | none => receives.In .cancelled ReceiveDone (fun _ => True) .idle
    | some n => receives.In .cancelled ReceiveDone (fun m => m = n) .pending

/-- `cancelling` says that `Disconnect()` has cut the send off and not yet told the visitor. -/
structure SendSide (asked : List Bytes) (sendData : Option Bytes) (sendRemaining : Bytes) (cancelling : Bool)
    (sends : Calls Sending (StatusOr Unit)) (bytes : Bytes) : Prop where
  asked : sends.gather (fun c => [c.argument.data]) = asked
  bytes : bytes = sends.gather (fun c => c.argument.accepted)
  phase : match sendData, cancelling with
    | none, false => sends.In .cancelled SendDone (fun _ => True) .idle
    | none, true => sends.In .cancelled SendDone (fun a => a.accepted <+: a.data) .cancelling
    | some _, false => sends.In .cancelled SendDone (fun a => a.accepted ++ sendRemaining = a.data) .pending
    | some _, true => False
  remaining : sendRemaining = [] ↔ sendData = none

namespace ReceiveSide

variable {rs : List Nat} {n : Nat} {m : Option Nat} {c : Calls Nat (StatusOr Bytes)} {bytes : Bytes}

theorem outstanding (h : ReceiveSide rs m c bytes) : c.outstanding = m.isSome := by
  cases m with
  | none => exact outstanding_idle h.phase
  | some n => exact outstanding_pending h.phase

theorem eq_none (h : ReceiveSide rs m c bytes) (ho : c.outstanding = false) : m = none := by
  cases m with
  | none => rfl
  | some n => cases h.outstanding.symm.trans ho

theorem start (h : ReceiveSide rs none c bytes) : ReceiveSide (rs ++ [n]) (some n) (c.start n) bytes :=
  ⟨by rw [gather_start, h.asked], by simp [h.bytes, gather_start, receivedData], in_start h.phase rfl⟩

theorem data (h : ReceiveSide rs (some n) c bytes) (d : Bytes) :
    ReceiveSide rs none (c.complete (.ok (d.take n))) (bytes ++ d.take n) := by
  refine ⟨(gather_complete (fun _ _ => rfl) _).trans h.asked, ?_, in_complete h.phase ?_⟩
  · rw [h.bytes, gather_complete_waiting h.phase.2 (d := d.take n)]
    · intro a b
      simp [receivedData]
    · intro a b
      simp [receivedData]
  · rintro a rfl data hd
    cases hd
    exact (length_take_le ..)

theorem fail (h : ReceiveSide rs (some n) c bytes) {r : StatusOr Bytes} (hr : ∀ d, r ≠ .ok d) :
    ReceiveSide rs none (c.complete r) bytes := by
  refine ⟨(gather_complete (fun _ _ => rfl) _).trans h.asked, ?_, in_complete h.phase fun a _ d hd => absurd hd (hr d)⟩
  rw [h.bytes, gather_complete_waiting h.phase.2 (d := []), append_nil]
  · intro a b
    simp [receivedData]
  · intro a b
    cases r <;> simp [receivedData] at hr ⊢

theorem cut_none (h : ReceiveSide rs none c bytes) : ReceiveSide rs none c.cut bytes := by
  rw [cut_eq_self h.phase]
  exact h

theorem cut_some (h : ReceiveSide rs (some n) c bytes) : ReceiveSide rs none (c.cut.complete .cancelled) bytes := by
  have hc := in_cut h.phase
  refine ⟨?_, ?_, in_complete_cancelled hc nofun⟩
  · rw [gather_complete (fun _ _ => rfl), gather_cut (fun _ => rfl), h.asked]
  · rw [gather_complete_waiting hc.2 (d := []), append_nil, gather_cut (fun _ => rfl), h.bytes]
    · intro a b
      simp [receivedData]
    · intro a b
      simp [receivedData]

end ReceiveSide

namespace SendSide

variable {ds : List Bytes} {d : Option Bytes} {data rem : Bytes} {b : Bool} {c : Calls Sending (StatusOr Unit)}
  {bytes : Bytes}

theorem not_cancelling (h : SendSide ds (some data) rem b c bytes) : b = false := by
  cases b with
  | false => rfl
  | true => exact h.phase.elim

theorem eq_none (h : SendSide ds d rem b c bytes) (ho : c.outstanding = false) : d = none ∧ b = false := by
  cases d with
  | some data =>
    cases h.not_cancelling
    cases (outstanding_pending h.phase).symm.trans ho
  | none =>
    cases b with
    | false => exact ⟨rfl, rfl⟩
    | true => cases (outstanding_cancelling h.phase).symm.trans ho

theorem start (h : SendSide ds none rem false c bytes) (hd : data ≠ []) :
    SendSide (ds ++ [data]) (some data) data false (c.start { data }) bytes :=
  ⟨by rw [gather_start, h.asked], by simp [h.bytes, gather_start], in_start h.phase rfl, by simp [hd]⟩

theorem gathered (h : SendSide ds d rem b c bytes) (r : StatusOr Unit) :
    (c.complete r).gather (fun c => [c.argument.data]) = ds ∧
      bytes = (c.complete r).gather fun c => c.argument.accepted :=
  ⟨(gather_complete (fun _ _ => rfl) r).trans h.asked, h.bytes.trans (gather_complete (fun _ _ => rfl) r).symm⟩

theorem fail (h : SendSide ds (some data) rem b c bytes) {r : StatusOr Unit} (hr : r ≠ .ok ()) :
    SendSide ds none [] b (c.complete r) bytes := by
  cases h.not_cancelling
  obtain ⟨ha, hb⟩ := h.gathered r
  exact ⟨ha, hb, in_complete h.phase fun a ha => ⟨⟨rem, ha⟩, fun h => absurd h hr⟩, by simp⟩

def accept (c : Calls Sending (StatusOr Unit)) (taken : Bytes) : Calls Sending (StatusOr Unit) :=
  c.update fun a => { a with accepted := a.accepted ++ taken }

variable {n : Nat}

theorem accepts (h : SendSide ds (some data) rem false c bytes) (n : Nat) :
    (accept c (rem.take n)).gather (fun c => [c.argument.data]) = ds ∧
      bytes ++ rem.take n = (accept c (rem.take n)).gather (fun c => c.argument.accepted) ∧
      (accept c (rem.take n)).In .cancelled SendDone (fun a => a.accepted ++ rem.drop n = a.data) .pending := by
  refine ⟨?_, ?_, in_update h.phase fun a ha => ?_⟩
  · rw [accept, gather_update_eq (fun _ => rfl), h.asked]
  · rw [accept, gather_update h.phase (fun _ => rfl), h.bytes]
  · simpa using ha

theorem part (h : SendSide ds (some data) rem b c bytes) (hn : rem.drop n ≠ []) :
    SendSide ds (some data) (rem.drop n) b (accept c (rem.take n)) (bytes ++ rem.take n) := by
  cases h.not_cancelling
  obtain ⟨hd, hb, hin⟩ := h.accepts n
  exact ⟨hd, hb, hin, by simpa using hn⟩

theorem whole (h : SendSide ds (some data) rem b c bytes) (hn : rem.drop n = []) :
    SendSide ds none [] b ((accept c (rem.take n)).complete (.ok ())) (bytes ++ rem.take n) := by
  cases h.not_cancelling
  obtain ⟨hd, hb, hin⟩ := h.accepts n
  refine ⟨?_, ?_, in_complete hin fun a ha => ?_, by simp⟩
  · rw [gather_complete (fun _ _ => rfl), hd]
  · rw [gather_complete (fun _ _ => rfl), hb]
  · rw [hn, append_nil] at ha
    exact ⟨⟨[], by rw [append_nil, ha]⟩, fun _ => ha⟩

theorem cut_none (h : SendSide ds none rem false c bytes) : SendSide ds none [] false c.cut bytes := by
  rw [cut_eq_self h.phase]
  exact { h with remaining := by simp }

theorem cut_some (h : SendSide ds (some data) rem b c bytes) : SendSide ds none [] true c.cut bytes := by
  cases h.not_cancelling
  have hc := in_cut h.phase
  refine ⟨?_, ?_, ⟨hc.1, hc.2.imp fun a ha => ⟨rem, ha⟩⟩, by simp⟩
  · rw [gather_cut (fun _ => rfl), h.asked]
  · rw [gather_cut (fun _ => rfl), h.bytes]

theorem cancel (h : SendSide ds none rem true c bytes) : SendSide ds none rem false (c.complete .cancelled) bytes := by
  obtain ⟨ha, hb⟩ := h.gathered .cancelled
  exact ⟨ha, hb, in_complete_cancelled h.phase fun a ha => ⟨ha, nofun⟩, h.remaining⟩

end SendSide

end AcceptedTcp

/-! ## The socket -/

namespace QuictunAcceptedTcpSocket

structure Core (rs : List Nat) (ds : List Bytes) (s : QuictunAcceptedTcpSocket) : Prop where
  receive : ReceiveSide rs s.receiveMaxSize s.receives s.kernelReceived
  send : SendSide ds s.sendData s.sendRemaining (Stack.has Block.cancels s.stack) s.sends s.kernelSent
  cancels : s.stack.countP Block.cancels ≤ 1
  connected : s.isOpen = true → Stack.has Block.cancels s.stack = false
  closed : s.isOpen = false → s.receiveMaxSize = none ∧ s.fired = none
  edge : s.edgeTriggered = true → s.isOpen = true → s.armed = ⟨true, true, true⟩

def ReceiveArmed (s : QuictunAcceptedTcpSocket) : Prop :=
  s.receiveMaxSize.isSome = true →
    (s.armed.readable = true ∧ s.armed.error = true) ∨ s.fired.any forReceive = true

def SendArmed (s : QuictunAcceptedTcpSocket) (excused : Bool) : Prop :=
  s.sendData.isSome = true →
    (s.armed.writable = true ∧ s.armed.error = true) ∨
      (s.fired.any forSend || Stack.has Block.sends s.stack || excused) = true

/-- `rs` and `ds` are what was asked of the socket. -/
structure Inv (rs : List Nat) (ds : List Bytes) (s : QuictunAcceptedTcpSocket) : Prop extends Core rs ds s where
  closedSend : s.isOpen = false → s.sendData = none
  receiveArmed : s.ReceiveArmed
  sendArmed : s.SendArmed false

variable {s s' : QuictunAcceptedTcpSocket} {rs : List Nat} {ds : List Bytes}

theorem inv_fresh (edge : Bool) : (fresh edge).Inv [] [] where
  receive := ⟨rfl, rfl, rfl, nofun⟩
  send := ⟨rfl, rfl, ⟨rfl, nofun⟩, by simp [fresh]⟩
  cancels := by simp [fresh]
  connected _ := rfl
  closed h := by cases h
  edge h _ := by simp_all [fresh]
  closedSend h := by cases h
  receiveArmed h := by cases h
  sendArmed h := by cases h

theorem rearmSocket_eq (h : s.Core rs ds) (ho : s.isOpen = true) (events : QuicSocketEventMask) :
    s.rearmSocket events = { s with armed := s.armed.union events } := by
  unfold rearmSocket
  split
  next he =>
    have hu : s.armed.union events = s.armed := by
      rw [h.edge he ho]
      rfl
    rw [hu]
  · rfl

theorem Core.rearmed (h : s.Core rs ds) (ho : s.isOpen = true) (events : QuicSocketEventMask) :
    Core rs ds { s with armed := s.armed.union events } :=
  { h with edge := fun he _ => by simp only [h.edge he ho]; rfl }

variable {n : Nat}

theorem isOpen_of_receive (h : s.Core rs ds) (hm : s.receiveMaxSize = some n) : s.isOpen = true := by
  by_contra ho
  rw [Bool.not_eq_true] at ho
  cases (h.closed ho).1.symm.trans hm

/-! ### Receiving -/

theorem finish_receiveInternal (hs : ReceiveSide rs (some n) s.receives s.kernelReceived) (recv : StatusOr Bytes)
    (after : Block) :
    let r := s.receiveInternal n recv
    r.1.finishOrRearmAsyncReceive r.2 after =
        ({ s with kernelCalls := s.kernelCalls + 1 }.rearmSocket (kSocketEventReadable.union kSocketEventError),
          false) ∨
      ∃ receives bytes, ReceiveSide rs none receives bytes ∧ r.1.finishOrRearmAsyncReceive r.2 after =
        ({ s with receiveMaxSize := none, kernelCalls := s.kernelCalls + 1, receives, kernelReceived := bytes
                  stack := after :: s.stack }, true) := by
  cases recv with
  | ok bytes => exact .inr ⟨_, _, hs.data bytes, rfl⟩
  | unavailable => exact .inl rfl
  | cancelled => exact .inr ⟨_, _, hs.fail (r := .cancelled) (by simp), rfl⟩
  | error => exact .inr ⟨_, _, hs.fail (r := .error) (by simp), rfl⟩

theorem Core.received (h : s.Core rs ds) {receives : Calls Nat (StatusOr Bytes)} {bytes : Bytes} {after : Block}
    (k : Nat) (hr : ReceiveSide rs none receives bytes) (ha : after.cancels = false) :
    Core rs ds { s with receiveMaxSize := none, kernelCalls := k, receives, kernelReceived := bytes,
                        stack := after :: s.stack } :=
  { h with
    receive := hr
    send := by simpa [ha] using h.send
    cancels := by simpa [ha] using h.cancels
    connected := by simpa [ha] using h.connected
    closed := fun ho => ⟨rfl, (h.closed ho).2⟩ }

theorem Core.kernelCall (h : s.Core rs ds) (k : Nat) : Core rs ds { s with kernelCalls := k } := { h with }

theorem ReceiveArmed.rearmed (h : s.ReceiveArmed) (events : QuicSocketEventMask) :
    ReceiveArmed { s with armed := s.armed.union events } := fun hm =>
  (h hm).imp_left fun h => by simp [QuicSocketEventMask.union, h]

variable {b : Bool}

theorem SendArmed.rearmed (h : s.SendArmed b) (events : QuicSocketEventMask) :
    SendArmed { s with armed := s.armed.union events } b := fun hd =>
  (h hd).imp_left fun h => by simp [QuicSocketEventMask.union, h]

theorem receiveArmed_rearmed (s : QuictunAcceptedTcpSocket) :
    ReceiveArmed { s with armed := s.armed.union (kSocketEventReadable.union kSocketEventError) } :=
  fun _ => .inl ⟨Bool.or_true _, Bool.or_true _⟩

theorem sendArmed_rearmed (s : QuictunAcceptedTcpSocket) (b : Bool) :
    SendArmed { s with armed := s.armed.union (kSocketEventWritable.union kSocketEventError) } b :=
  fun _ => .inl ⟨Bool.or_true _, Bool.or_true _⟩

theorem inv_receiveAsync (h : s.Inv rs ds) (ho : s.isOpen = true) (hn : s.receives.outstanding = false) (n : Nat)
    (recv : StatusOr Bytes) : (s.receiveAsync n recv).Inv (rs ++ [n]) ds := by
  have hm : ReceiveSide rs none s.receives s.kernelReceived := h.receive.eq_none hn ▸ h.receive
  have hc : Core (rs ++ [n]) ds { s with receiveMaxSize := some n, receives := s.receives.start n } :=
    { h.toCore with receive := hm.start, closed := fun hf => by cases ho.symm.trans hf }
  rcases finish_receiveInternal hc.receive recv .finished with he | ⟨receives, bytes, hr, he⟩
  · have hk := hc.kernelCall (s.kernelCalls + 1)
    have he : s.receiveAsync n recv = _ := congrArg Prod.fst he
    rw [he, rearmSocket_eq hk ho]
    exact {
      hk.rearmed ho _ with
      closedSend := h.closedSend
      receiveArmed := receiveArmed_rearmed _
      sendArmed := SendArmed.rearmed h.sendArmed _ }
  · have he : s.receiveAsync n recv = _ := congrArg Prod.fst he
    rw [he]
    exact {
      hc.received (s.kernelCalls + 1) hr rfl with
      closedSend := h.closedSend
      receiveArmed := nofun
      sendArmed := h.sendArmed }

/-! ### Sending -/

variable {data : Bytes}

theorem finish_sendInternal (hs : SendSide ds (some data) s.sendRemaining b s.sends s.kernelSent)
    (send : StatusOr Nat) :
    let r := s.sendInternal send
    (send ≠ .error ∧ ∃ sendRemaining sends bytes, SendSide ds (some data) sendRemaining b sends bytes ∧
      r.1.finishOrRearmAsyncSend r.2 =
        { s with sendRemaining, kernelCalls := s.kernelCalls + 1, sends, kernelSent := bytes }.rearmSocket
          (kSocketEventWritable.union kSocketEventError)) ∨
      ∃ sends bytes, SendSide ds none [] b sends bytes ∧ r.1.finishOrRearmAsyncSend r.2 =
        { s with sendData := none, sendRemaining := [], kernelCalls := s.kernelCalls + 1, sends, kernelSent := bytes
                 stack := .finished :: s.stack } := by
  cases send with
  | ok n =>
    by_cases hn : s.sendRemaining.drop n = []
    · refine .inr ⟨_, _, hs.whole hn, ?_⟩
      simp [sendInternal, finishOrRearmAsyncSend, hn, sendComplete, SendSide.accept]
    · refine .inl ⟨by simp, _, _, _, hs.part hn, ?_⟩
      simp [sendInternal, finishOrRearmAsyncSend, hn, SendSide.accept]
  | unavailable => exact .inl ⟨by simp, _, _, _, hs, by simp [sendInternal, finishOrRearmAsyncSend, StatusOr.status]⟩
  | cancelled =>
    exact .inr ⟨_, _, hs.fail (r := .cancelled) (by simp), by
      simp [sendInternal, finishOrRearmAsyncSend, StatusOr.status, sendComplete]⟩
  | error =>
    exact .inr ⟨_, _, hs.fail (r := .error) (by simp), by
      simp [sendInternal, finishOrRearmAsyncSend, StatusOr.status, sendComplete]⟩

variable {send : StatusOr Nat}

theorem inv_trySend (h : s.Core rs ds) (hr : s.ReceiveArmed) (hd : s.sendData = some data)
    (ho : s.isOpen = true ∨ send = .error) :
    ((s.sendInternal send).1.finishOrRearmAsyncSend (s.sendInternal send).2).Inv rs ds := by
  have hs := h.send
  rw [hd] at hs
  rcases finish_sendInternal hs send with ⟨hne, rem, sends, bytes, hs', he⟩ | ⟨sends, bytes, hs', he⟩
  · have ho := ho.resolve_right hne
    have hc : Core rs ds
      { s with sendRemaining := rem, kernelCalls := s.kernelCalls + 1, sends, kernelSent := bytes } :=
      { h with send := by simpa only [hd] using hs' }
    rw [he, rearmSocket_eq hc ho]
    exact {
      hc.rearmed ho _ with
      closedSend := fun hf => by cases ho.symm.trans hf
      receiveArmed := ReceiveArmed.rearmed hr _
      sendArmed := sendArmed_rearmed _ _ }
  · rw [he]
    exact {
      h with
      send := hs'
      cancels := h.cancels
      connected := h.connected
      closedSend := fun _ => rfl
      receiveArmed := hr
      sendArmed := nofun }

theorem inv_sendAsync (h : s.Inv rs ds) (hn : s.sends.outstanding = false) (hd : data ≠ [])
    (ho : s.isOpen = true ∨ send = .error) : (s.sendAsync data send).Inv rs (ds ++ [data]) := by
  obtain ⟨h0, hb⟩ := h.send.eq_none hn
  have hs := h.send
  rw [h0, hb] at hs
  have hc : Core rs (ds ++ [data])
    { s with sendData := some data, sendRemaining := data, sends := s.sends.start { data } } :=
    { h.toCore with send := hb ▸ hs.start hd }
  exact inv_trySend hc h.receiveArmed rfl ho

/-! ### Events -/

theorem sendRemaining_eq_nil (h : s.Core rs ds) : s.sendRemaining = [] ↔ s.sendData = none := h.send.remaining

variable {events : QuicSocketEventMask}

theorem inv_onSocketEventSend (h : s.Core rs ds) (hr : s.ReceiveArmed) (hc : s.isOpen = false → s.sendData = none)
    (hs : s.SendArmed (forSend events)) (send : StatusOr Nat) : (s.onSocketEventSend events send).Inv rs ds := by
  unfold onSocketEventSend
  split
  next hg =>
    obtain ⟨data, hd⟩ := ne_none_iff_exists'.1 fun hn => hg.1 ((sendRemaining_eq_nil h).2 hn)
    refine inv_trySend h hr hd (.inl ?_)
    by_contra ho
    rw [Bool.not_eq_true] at ho
    cases (hc ho).symm.trans hd
  next hg =>
    refine { h with closedSend := hc, receiveArmed := hr, sendArmed := fun hd => ?_ }
    have hf : forSend events = false := by
      by_contra hf
      rw [Bool.not_eq_false] at hf
      refine hg ⟨fun hn => ?_, hf⟩
      rw [(sendRemaining_eq_nil h).1 hn] at hd
      cases hd
    rw [← hf]
    exact hs hd

theorem inv_onSocketEvent (h : s.Core rs ds) (hr : forReceive events = false → s.ReceiveArmed)
    (hc : s.isOpen = false → s.sendData = none) (hs : s.SendArmed (forSend events)) (recv : StatusOr Bytes)
    (send : StatusOr Nat) : (s.onSocketEvent events recv send).Inv rs ds := by
  unfold onSocketEvent
  split
  next n hm he =>
    have hr := h.receive
    rw [hm] at hr
    have ho : s.isOpen = true := isOpen_of_receive h hm
    rcases finish_receiveInternal hr recv (.onSocketEventSend events) with he | ⟨receives, bytes, hr', he⟩
    · have hk := h.kernelCall (s.kernelCalls + 1)
      simp only [he, Bool.false_eq_true, if_false]
      rw [rearmSocket_eq hk ho]
      exact inv_onSocketEventSend (hk.rearmed ho _) (receiveArmed_rearmed _) hc (SendArmed.rearmed hs _) send
    · simp only [he, if_true]
      exact {
        h.received (s.kernelCalls + 1) hr' rfl with
        closedSend := hc
        receiveArmed := nofun
        sendArmed := fun hd => (hs hd).imp_right fun he => by
          simp only [Stack.has_cons, Block.sends, Bool.or_eq_true, Bool.false_eq_true, or_false] at he ⊢
          tauto }
  next hm =>
    refine inv_onSocketEventSend h (fun hsome => hr ?_ hsome) hc hs send
    obtain ⟨n, hn⟩ := isSome_iff_exists.1 hsome
    exact Bool.not_eq_true _ ▸ hm n hn

theorem inv_delivered (h : s.Inv rs ds) (hst : s.stack = []) (hf : s.fired = some events)
    (recv : StatusOr Bytes) (send : StatusOr Nat) :
    ({ s with fired := none }.onSocketEvent events recv send).Inv rs ds := by
  have hc : Core rs ds { s with fired := none } := { h.toCore with closed := fun ho => ⟨(h.closed ho).1, rfl⟩ }
  apply inv_onSocketEvent hc
  · intro he hm
    refine (h.receiveArmed hm).imp_right fun hx => ?_
    rw [hf, any_some, he] at hx
    cases hx
  · exact h.closedSend
  · intro hd
    refine (h.sendArmed hd).imp_right fun hx => ?_
    rw [hf, hst] at hx
    simpa [hst] using hx

theorem inv_collect (h : s.Inv rs ds) (ho : s.isOpen = true) (hst : s.stack = []) (hf : s.fired = none)
    (events : QuicSocketEventMask) :
    Inv rs ds { s with fired := some events, armed := if s.edgeTriggered then s.armed else s.armed.diff events } := by
  refine { h with closed := ?_, edge := ?_, receiveArmed := fun hm => ?_, sendArmed := fun hd => ?_ }
  · exact fun hc => by cases ho.symm.trans hc
  · exact fun he ho => (if_pos he).trans (h.edge he ho)
  · have ha := h.receiveArmed hm
    simp only [hf, any_none, Bool.false_eq_true, or_false] at ha
    cases hr : forReceive events with
    | true => exact .inr hr
    | false =>
      rw [forReceive, Bool.or_eq_false_iff] at hr
      left
      split <;> simp [QuicSocketEventMask.diff, ha, hr]
  · have ha := h.sendArmed hd
    simp only [hf, hst, any_none, Stack.has_nil, Bool.or_self, Bool.false_eq_true, or_false] at ha
    cases hs : forSend events with
    | true => exact .inr (by simp [hs])
    | false =>
      rw [forSend, Bool.or_eq_false_iff] at hs
      left
      split <;> simp [QuicSocketEventMask.diff, ha, hs]

/-! ### Disconnecting -/

theorem inv_of_closed (ho : s.isOpen = false) (hm : s.receiveMaxSize = none) (hd : s.sendData = none)
    (hf : s.fired = none) (hr : ReceiveSide rs none s.receives s.kernelReceived)
    (hs : SendSide ds none s.sendRemaining (Stack.has Block.cancels s.stack) s.sends s.kernelSent)
    (hk : s.stack.countP Block.cancels ≤ 1) : s.Inv rs ds where
  receive := hm ▸ hr
  send := hd ▸ hs
  cancels := hk
  connected hc := by cases ho.symm.trans hc
  closed _ := ⟨hm, hf⟩
  edge _ hc := by cases ho.symm.trans hc
  closedSend _ := hd
  receiveArmed hx := by
    rw [hm] at hx
    cases hx
  sendArmed hx := by
    rw [hd] at hx
    cases hx

theorem countP_cancels {l : List Block} : l.countP Block.cancels = 0 ↔ Stack.has Block.cancels l = false := by
  simp [Stack.has]

theorem inv_disconnect (h : s.Inv rs ds) : s.disconnect.Inv rs ds := by
  unfold disconnect
  split
  · exact h
  next ho =>
    have hst := h.connected (by simpa using ho)
    have hk := countP_cancels.2 hst
    have hr := h.receive
    have hs := h.send
    rw [hst] at hs
    -- Who is told depends on which operations there are.
    cases hm : s.receiveMaxSize <;> cases hd : s.sendData <;> rw [hm] at hr <;> rw [hd] at hs
    · exact inv_of_closed rfl rfl rfl rfl hr.cut_none (hst ▸ hs.cut_none) h.cancels
    · exact inv_of_closed rfl rfl rfl rfl hr.cut_none (hst ▸ hs.cut_some.cancel) h.cancels
    · exact inv_of_closed rfl rfl rfl rfl hr.cut_some (hst ▸ hs.cut_none) h.cancels
    · refine inv_of_closed rfl rfl rfl rfl hr.cut_some hs.cut_some ?_
      change (Block.disconnectSend true :: s.stack).countP Block.cancels ≤ 1
      rw [countP_cons_of_pos rfl, hk]

variable {rest : List Block}

theorem Core.pop (h : s.Core rs ds) {b : Block} (hst : s.stack = b :: rest) (hb : b.cancels = false) :
    Core rs ds { s with stack := rest } :=
  { h with
    send := by simpa [hst, hb] using h.send
    cancels := by simpa [hst, hb] using h.cancels
    connected := by simpa [hst, hb] using h.connected }

theorem Inv.pop (h : s.Inv rs ds) {b : Block} {rest : List Block} (hst : s.stack = b :: rest) (hb : b.cancels = false)
    (hs : b.sends = false) : Inv rs ds { s with stack := rest } :=
  { h.toCore.pop hst hb with
    closedSend := h.closedSend
    receiveArmed := h.receiveArmed
    sendArmed := fun hd => (h.sendArmed hd).imp_right fun hx => by simpa [hst, hs] using hx }

theorem inv_resume (h : s.Inv rs ds) {b : Block} (hst : s.stack = b :: rest) (send : StatusOr Nat) :
    ({ s with stack := rest }.resume b send).Inv rs ds := by
  cases b with
  | finished | disconnected => exact h.pop hst rfl rfl
  | onSocketEventSend events =>
    apply inv_onSocketEventSend (h.toCore.pop hst rfl) h.receiveArmed h.closedSend
    intro hd
    refine (h.sendArmed hd).imp_right fun hx => ?_
    simp only [hst, Stack.has_cons, Block.sends, Bool.or_eq_true, Bool.false_eq_true, or_false] at hx ⊢
    tauto
  | disconnectSend required =>
    cases required with
    | false => exact h.pop hst rfl rfl
    | true =>
      -- It is the only one, and there is none on the stack of a connected socket.
      have hk := h.cancels
      rw [hst, countP_cons_of_pos rfl, Nat.succ_le_succ_iff, Nat.le_zero] at hk
      have hb : Stack.has Block.cancels s.stack = true := by rw [hst]; rfl
      have ho : s.isOpen = false := by
        by_contra ho
        cases (h.connected (by simpa using ho)).symm.trans hb
      have hr := h.receive
      have hs := h.send
      rw [(h.closed ho).1] at hr
      rw [h.closedSend ho, hb] at hs
      refine inv_of_closed ho (h.closed ho).1 (h.closedSend ho) (h.closed ho).2 hr ?_ ?_
      · exact countP_cancels.1 hk ▸ hs.cancel
      · change (Block.disconnected :: rest).countP Block.cancels ≤ 1
        rw [countP_cons_of_neg (by simp [Block.cancels]), hk]
        exact Nat.zero_le 1

variable {e : Ev}

theorem inv_step (h : s.Inv rs ds) (hstep : s.step e = some s') :
    s'.Inv (rs ++ e.maxSize.toList) (ds ++ e.data.toList) := by
  cases e <;> simp only [Ev.maxSize, Ev.data, toList_none, toList_some, append_nil]
  case receiveAsync n recv =>
    obtain ⟨hg, ⟨⟩⟩ := ite_none_right_eq_some.1 hstep
    exact inv_receiveAsync h hg.1 hg.2.1 n recv
  case sendAsync data send =>
    obtain ⟨hg, ⟨⟩⟩ := ite_none_right_eq_some.1 hstep
    exact inv_sendAsync h hg.1 hg.2.1 hg.2.2
  case disconnect =>
    cases hstep
    exact inv_disconnect h
  case collect events =>
    obtain ⟨hg, ⟨⟩⟩ := ite_none_right_eq_some.1 hstep
    exact inv_collect h hg.1 hg.2.1 hg.2.2 events
  case onSocketEvent recv send =>
    simp only [step] at hstep
    split at hstep
    next events hst hf =>
      cases hstep
      exact inv_delivered h hst hf recv send
    · cases hstep
  case returns send =>
    simp only [step] at hstep
    split at hstep
    · cases hstep
    next b rest hst =>
      cases hstep
      exact inv_resume h hst send

/-! ## After the disconnect -/

def history (s : QuictunAcceptedTcpSocket) :
    Nat × Calls Nat (StatusOr Bytes) × Calls Sending (StatusOr Unit) :=
  (s.kernelCalls, s.receives, s.sends)

theorem step_of_disconnected (h : s.Inv rs ds) (hd : s.Disconnected) (he : e.isSendAsync = false)
    (hstep : s.step e = some s') : s'.Disconnected ∧ s'.history = s.history := by
  obtain ⟨ho, hst⟩ := hd
  cases e with
  | receiveAsync | collect => cases ho.symm.trans (ite_none_right_eq_some.1 hstep).1.1
  | sendAsync data send => cases he
  | disconnect =>
    cases hstep
    rw [disconnect, if_pos ho]
    exact ⟨⟨ho, hst⟩, rfl⟩
  | onSocketEvent recv send =>
    simp only [step, (h.closed ho).2] at hstep
    split at hstep
    next hf => cases hf
    · cases hstep
  | returns send =>
    simp only [step] at hstep
    split at hstep
    · cases hstep
    next b rest hb =>
      cases hstep
      rw [hb, Stack.has_cons, Bool.or_eq_false_iff] at hst
      cases b with
      | finished => exact ⟨⟨ho, hst.2⟩, rfl⟩
      | onSocketEventSend events =>
        have hn : s.sendRemaining = [] := (sendRemaining_eq_nil h.toCore).2 (h.closedSend ho)
        simp only [resume, onSocketEventSend, hn, ne_eq, not_true_eq_false, false_and, if_false]
        exact ⟨⟨ho, hst.2⟩, rfl⟩
      | disconnectSend | disconnected => cases hst.1

theorem run_of_disconnected {fs : List Ev} (h : s.Inv rs ds) (hd : s.Disconnected)
    (hfs : ∀ e ∈ fs, e.isSendAsync = false)
    (hr : Lts.run step s fs = some s') : s'.history = s.history := by
  have hall : Lts.AllSteps step (fun _ e => e.isSendAsync = false) s fs :=
    Lts.allSteps_of_forall s fun e he _ => hfs e he
  exact (Lts.run_inv_of (I := fun t => (∃ rs ds, t.Inv rs ds) ∧ t.Disconnected ∧ t.history = s.history)
    (fun t e t' ⟨⟨rs, ds, ht⟩, hd, hh⟩ he hs =>
      have hd' := step_of_disconnected ht hd he hs
      ⟨⟨_, _, inv_step ht hs⟩, hd'.1, hd'.2.trans hh⟩)
    ⟨⟨rs, ds, h⟩, hd, rfl⟩ hall hr).2.2

/-! ## The contract -/

theorem Disconnected.cancels (hd : s.Disconnected) : Stack.has Block.cancels s.stack = false := by
  by_contra hb
  rw [Bool.not_eq_false] at hb
  have hi : Stack.has Block.inDisconnect s.stack = true :=
    Stack.has_mono (fun b hb => by cases b <;> simp_all [Block.cancels, Block.inDisconnect]) hb
  cases hd.2.symm.trans hi

theorem Inv.exactlyOnce (h : s.Inv rs ds) (hd : s.Disconnected) :
    s.receives.ExactlyOnce .cancelled ∧ s.sends.ExactlyOnce .cancelled := by
  have hr := h.receive
  have hs := h.send
  rw [(h.closed hd.1).1] at hr
  rw [h.closedSend hd.1, hd.cancels] at hs
  exact ⟨exactlyOnce_of_idle hr.phase, exactlyOnce_of_idle hs.phase⟩

theorem Inv.sends_in (h : s.Inv rs ds) : ∃ ph, s.sends.In .cancelled SendDone (fun a => a.accepted <+: a.data) ph := by
  have hs := h.send.phase
  split at hs
  · exact ⟨.idle, hs⟩
  · exact ⟨.cancelling, hs⟩
  · exact ⟨.pending, hs.1, hs.2.imp fun a ha => ⟨s.sendRemaining, ha⟩⟩
  · exact hs.elim

theorem Inv.receives_atMostOnce (h : s.Inv rs ds) : s.receives.AtMostOnce := by
  have hr := h.receive.phase
  split at hr <;> exact hr.atMostOnce

theorem Inv.sendData_isSome (h : s.Inv rs ds) (ho : s.isOpen = true) (hs : s.sends.outstanding = true) :
    s.sendData.isSome = true := by
  have hx := h.send.phase
  rw [h.connected ho] at hx
  cases hd : s.sendData with
  | some data => rfl
  | none =>
    rw [hd] at hx
    cases (outstanding_idle hx).symm.trans hs

/-- What the visitor, the kernel and the event loop see of the socket, whatever they do. -/
theorem async_contract (edgeTriggered : Bool) {es : List Ev} {s : QuictunAcceptedTcpSocket}
    (h : Lts.run step (fresh edgeTriggered) es = some s) : (s.receives.AtMostOnce ∧ s.sends.AtMostOnce) ∧
      (s.Disconnected → s.receives.ExactlyOnce .cancelled ∧ s.sends.ExactlyOnce .cancelled) ∧
      (∀ c ∈ s.sends.calls, c.argument.accepted <+: c.argument.data ∧
        (.ok () ∈ c.completions → c.argument.accepted = c.argument.data)) ∧
      s.receives.gather (fun c => [c.argument]) = es.filterMap Ev.maxSize ∧
      s.sends.gather (fun c => [c.argument.data]) = es.filterMap Ev.data ∧
      s.kernelSent = s.sends.gather (fun c => c.argument.accepted) ∧
      s.kernelReceived = s.receives.gather receivedData ∧
      (s.receives.outstanding = true →
        (s.armed.readable = true ∧ s.armed.error = true) ∨ s.fired.any forReceive = true) ∧
      (s.isOpen = true → s.sends.outstanding = true → (s.armed.writable = true ∧ s.armed.error = true) ∨
        s.fired.any forSend = true ∨ Stack.has Block.sends s.stack = true) ∧
      (s.Disconnected → ∀ fs s', (∀ e ∈ fs, e.isSendAsync = false) → Lts.run step s fs = some s' →
        s'.kernelCalls = s.kernelCalls ∧ s'.receives = s.receives ∧ s'.sends = s.sends) := by
  have hi : s.Inv (es.filterMap Ev.maxSize) (es.filterMap Ev.data) := by
    refine Lts.run_hist (I := fun es s => Inv (es.filterMap Ev.maxSize) (es.filterMap Ev.data) s)
      (fun es s e s' h hs => ?_) (inv_fresh edgeTriggered) h
    rw [filterMap_append, filterMap_append]
    cases e <;> exact inv_step h hs
  obtain ⟨ph, hs⟩ := hi.sends_in
  refine ⟨⟨hi.receives_atMostOnce, hs.atMostOnce⟩, hi.exactlyOnce, ?_, hi.receive.asked, hi.send.asked, hi.send.bytes,
    hi.receive.bytes, ?_, ?_, ?_⟩
  · intro c hc
    rcases hs.cases hc with ⟨r, hr, hd, -⟩ | ⟨h0, hq⟩
    · refine ⟨hd.1, fun hok => hd.2 ?_⟩
      rw [hr, mem_singleton] at hok
      exact hok.symm
    · refine ⟨hq, fun hok => ?_⟩
      rw [h0] at hok
      cases hok
  · intro ho
    rw [hi.receive.outstanding] at ho
    exact hi.receiveArmed ho
  · intro ho hout
    refine (hi.sendArmed (hi.sendData_isSome ho hout)).imp_right fun hx => ?_
    simpa using hx
  · intro hd fs s' hfs hr
    have hh := run_of_disconnected hi hd hfs hr
    simp only [history, Prod.mk.injEq] at hh
    exact hh

/-- A visitor that receives again from inside a completion, and a disconnect that cuts off both operations. -/
def bothCutOff : List Ev :=
  [.receiveAsync 4 .unavailable, .sendAsync [1, 2] (.ok 1), .collect ⟨true, true, false⟩,
    .onSocketEvent (.ok [9]) .unavailable, .receiveAsync 4 .unavailable, .returns .unavailable,
    .disconnect, .returns .unavailable, .returns .unavailable]

theorem async_contract_cut_off : ∃ s, Lts.run step (fresh false) bothCutOff = some s ∧
      s.Disconnected ∧ s.receives.ExactlyOnce .cancelled ∧ s.sends.ExactlyOnce .cancelled ∧
      s.receives.calls.map Call.completions = [[.cancelled], [.ok [9]]] ∧
      s.sends.calls.map Call.completions = [[.cancelled]] ∧ s.kernelSent = [1] := by
  have hr : Lts.run step (fresh false) bothCutOff = some _ := rfl
  have hc := (async_contract false hr).2.1 ⟨rfl, rfl⟩
  exact ⟨_, hr, ⟨rfl, rfl⟩, hc.1, hc.2, rfl, rfl, rfl⟩

/-- A send that failed in the middle has left bytes with the kernel; while a receive that came with the same event
is being completed, a send that has not finished is not armed; and a send on the closed socket is tried. -/
theorem async_contract_counterexample : (∃ s, Lts.run step (fresh false)
        [.sendAsync [1, 2] (.ok 1), .collect kSocketEventWritable, .onSocketEvent .unavailable .error,
          .sendAsync [3] (.ok 1), .returns .unavailable, .returns .unavailable] = some s ∧
      s.stack = [] ∧ s.sends.outstanding = false ∧ s.kernelSent = [1, 3] ∧
      s.kernelSent ≠ s.sends.gather (fun c => c.argument.data) ∧
      s.kernelSent ≠ s.sends.gather (fun c => if c.completions = [.ok ()] then c.argument.data else [])) ∧
      (∃ s, Lts.run step (fresh false)
          [.receiveAsync 4 .unavailable, .sendAsync [1] .unavailable, .collect ⟨true, true, true⟩,
            .onSocketEvent (.ok [9]) (.ok 1)] = some s ∧
        s.isOpen = true ∧ s.sends.outstanding = true ∧ s.armed = {}) ∧
      ∃ s s', Lts.run step (fresh false) [.disconnect] = some s ∧ s.isOpen = false ∧ s.stack = [] ∧ s.kernelCalls = 0 ∧
        s.step (.sendAsync [1] .error) = some s' ∧ s'.kernelCalls = 1 ∧
          s'.sends.calls.map Call.completions = [[.error]] := by
  refine ⟨⟨_, rfl, ?_⟩, ⟨_, rfl, ?_⟩, ⟨_, _, rfl, rfl, rfl, rfl, rfl, ?_⟩⟩ <;> decide +kernel

end QuictunAcceptedTcpSocket

end Quictun
