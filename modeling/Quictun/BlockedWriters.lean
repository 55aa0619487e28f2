import Quictun.ConnectionRemoval

/-!
# No blocked writer is forgotten

Every way onto the list of blocked writers goes through `OnWriteBlocked()`, which arms
the writable event; the event loop disarms it only when it is about to deliver it, and
the pass over the list puts nobody back without arming it again.
-/

namespace Quictun

open Udp Option List

namespace SharedSocket

/-! ## What is armed -/

section
variable {κ : Type*} {s t u : SharedSocket κ} {p q : ConnPtr} {c : Connection κ} {m : QuicSocketEventMask}

def armed (s : SharedSocket κ) : Bool := s.registration.any (·.writable)

structure Base (s : SharedSocket κ) : Prop where
  nodup : s.writeBlockedList.Nodup
  blocked : ∀ p ∈ s.writeBlockedList, ∃ c, s.connected p = some c
  opened : ∀ p c, s.objects.lookup p = some c → s.registration.isSome
  -- an edge-triggered event loop leaves the registration alone
  edge : s.edgeTriggered = true → ∀ m, s.registration = some m → m.writable = true
  tame : s.wild = false

/-- Whoever waits for the writer is woken, by what is armed or by what is about to be delivered. -/
structure Inv (s : SharedSocket κ) : Prop extends Base s where
  woken : s.writeBlockedList ≠ [] → s.armed = true ∨ s.ready.any (·.writable) = true

theorem Base.registered_of_connected (h : Base s) (hp : s.connected p = some c) : s.registration.isSome :=
  h.opened p c (connected_eq_some.1 hp).1

theorem Base.rearmIfLevel (h : Base s) (m : QuicSocketEventMask) : Base (s.rearmIfLevel m) := by
  rw [rearmIfLevel_eq]
  refine { h with opened := fun p c hp => ?_, edge := fun he k hk => ?_ }
  · have ho := h.opened p c hp
    split
    · exact ho
    · rw [isSome_map, ho]
  · rw [if_pos he] at hk
    exact h.edge he k hk

theorem armed_rearmIfLevel (ha : s.armed = true) (m : QuicSocketEventMask) : (s.rearmIfLevel m).armed = true := by
  rw [rearmIfLevel_eq]
  unfold armed at ha ⊢
  split
  · exact ha
  · cases hr : s.registration with
    | none =>
      rw [hr] at ha
      cases ha
    | some k =>
      rw [hr] at ha
      have hk : k.writable = true := ha
      simp [QuicSocketEventMask.union, hk]

theorem Base.armed_rearm (h : Base s) (ho : s.registration.isSome) :
    (s.rearmIfLevel kSocketEventWritable).armed = true := by
  obtain ⟨k, hk⟩ := isSome_iff_exists.1 ho
  rw [rearmIfLevel_eq]
  unfold armed
  split
  next he =>
    rw [hk]
    exact h.edge he k hk
  · simp [hk, QuicSocketEventMask.union, kSocketEventWritable]

theorem Inv.rearmIfLevel (h : Inv s) (m : QuicSocketEventMask) : Inv (s.rearmIfLevel m) := by
  refine ⟨h.toBase.rearmIfLevel m, fun hl => ?_⟩
  rw [rearmIfLevel_eq] at hl
  rcases h.woken hl with ha | hr
  · exact .inl (armed_rearmIfLevel ha m)
  · rw [rearmIfLevel_eq]
    exact .inr hr

theorem Base.add (h : Base s) (hp : s.connected p = some c) : Base (s.add p) := by
  rw [add_eq]
  split
  next hn =>
    refine { h with nodup := ?_, blocked := fun q hq => ?_ }
    · exact nodup_append.2 ⟨h.nodup, nodup_singleton p, fun a ha b hb => by
        rintro rfl
        exact hn.2 (mem_singleton.1 hb ▸ ha)⟩
    · rcases mem_append.1 hq with hq | hq
      · exact h.blocked q hq
      · exact ⟨c, mem_singleton.1 hq ▸ hp⟩
  · exact { h with }

section
variable (h : Inv s) (hp : s.connected p = some c)
include h hp

theorem Inv.onWriteBlocked : Inv (s.onWriteBlocked p) := by
  have hb : Base { s with notes := s.notes ++ [Note.writeBlocked p] } := { h.toBase with }
  have ha : Base ({ s with notes := s.notes ++ [Note.writeBlocked p] }.add p) := hb.add hp
  refine ⟨ha.rearmIfLevel _, fun _ => .inl (ha.armed_rearm ?_)⟩
  rw [add_eq]
  exact h.registered_of_connected hp

theorem Inv.write (full : Bool) : Inv (s.write p full) := by
  unfold SharedSocket.write
  split
  · exact h.onWriteBlocked hp
  · split
    · have hw : Inv { s with writeBlocked := true } := { h with }
      refine Inv.onWriteBlocked (c := c) (hw.rearmIfLevel _) ?_
      rw [rearmIfLevel_eq]
      exact hp
    · exact h

theorem Inv.close :
    Inv ({ s with objects := s.objects.insert p { c with closed := true } }.removeConnection p c) := by
  have hr := h.registered_of_connected hp
  refine ⟨⟨h.nodup.filter _, fun q hq => ?_, fun _ _ _ => hr, h.edge, h.tame⟩, fun hl => h.woken ?_⟩
  · obtain ⟨hq, hne⟩ := mem_remove.1 hq
    obtain ⟨k, hk⟩ := h.blocked q hq
    refine ⟨k, connected_eq_some.2 ⟨?_, (connected_eq_some.1 hk).2⟩⟩
    exact (FlatMap.lookup_insert_eq _ _ _ _).trans ((if_neg hne).trans (connected_eq_some.1 hk).1)
  · rintro hn
    apply hl
    rw [hn]
    rfl

end

theorem Inv.act (h : Inv s) (a : Act) : Inv (s.act a) := by
  cases a with
  | write p full =>
    simp only [SharedSocket.act]
    split
    · exact h
    next c hp => exact h.write hp full
  | close p =>
    simp only [SharedSocket.act]
    split
    · exact h
    next c hp => exact h.close hp

theorem Inv.acts : ∀ (as : List Act) {s : SharedSocket κ}, Inv s → Inv (s.acts as)
  | [], _, h => h
  | a :: as, _, h => Inv.acts as (h.act a)

/-! ## The pass over the list -/

theorem Inv.onBlockedWriterCanWrite (h : Inv s) (hp : ∃ c, s.objects.lookup p = some c) (as : List Act) :
    Inv (s.onBlockedWriterCanWrite p as) := by
  obtain ⟨c, hc⟩ := hp
  have h' : Inv { s with writeBlocked := false, notes := s.notes ++ [Note.canWrite p] } := { h with }
  unfold SharedSocket.onBlockedWriterCanWrite
  simp only [hc]
  split
  · exact h'
  · exact Inv.acts as h'

theorem stable_exists (q : ConnPtr) : Stable fun s : SharedSocket κ => ∃ c, s.objects.lookup q = some c where
  writers _ _ _ _ _ h := h
  close _ h := by
    simp only [removeConnection, remove, FlatMap.lookup_insert_eq]
    split
    · exact ⟨_, rfl⟩
    · exact h

theorem Inv.turns (turn : ConnPtr → List Act) : ∀ (ps : List ConnPtr) {s : SharedSocket κ}, Inv s →
    (∀ p ∈ ps, ∃ c, s.objects.lookup p = some c) →
    Inv (ps.foldl (fun s p => s.onBlockedWriterCanWrite p (turn p)) s)
  | [], _, h, _ => h
  | p :: ps, _, h, hp =>
    Inv.turns turn ps (h.onBlockedWriterCanWrite (hp p List.mem_cons_self) (turn p))
      fun q hq => (stable_exists q).onBlockedWriterCanWrite (turn p) (hp q (List.mem_cons_of_mem p hq))

theorem Base.onWritable (h : Base s) (turn : ConnPtr → List Act) : Inv (s.onWritable turn) := by
  have h' : Inv { s with writeBlocked := false, writeBlockedList := [] } :=
    { h with nodup := nodup_nil, blocked := forall_mem_nil _, woken := fun hn => absurd rfl hn }
  have ht : Inv ({ s with writeBlocked := false }.onWriterUnblocked turn) := by
    refine Inv.turns turn s.writeBlockedList h' fun p hp => ?_
    obtain ⟨c, hc⟩ := h.blocked p hp
    exact ⟨c, (connected_eq_some.1 hc).1⟩
  unfold SharedSocket.onWritable
  dsimp only
  split
  · exact ht
  · exact ht.rearmIfLevel _

def Waits (s : SharedSocket κ) (p : ConnPtr) : Prop :=
  p ∈ s.writeBlockedList ∨ ∃ c, s.objects.lookup p = some c ∧ c.closed = true

/-- On the way from `s` to `t` the connections `called` got a turn each, in that order, and
whoever found the writer blocked is on the list or has closed. -/
structure Progress (called : List ConnPtr) (s t : SharedSocket κ) : Prop where
  kept : ∀ p, s.Waits p → t.Waits p
  notes : ∃ tail, t.notes = s.notes ++ tail ∧ tail.filterMap Note.called = called ∧
    ∀ p, .writeBlocked p ∈ tail → t.Waits p

theorem Progress.refl (s : SharedSocket κ) : Progress [] s s :=
  ⟨fun _ => id, [], (append_nil _).symm, rfl, fun _ h => absurd h not_mem_nil⟩

theorem Progress.trans {xs ys : List ConnPtr} (h : Progress xs s t) (g : Progress ys t u) :
    Progress (xs ++ ys) s u := by
  obtain ⟨tail, ht, hx, hw⟩ := h.notes
  obtain ⟨tail', ht', hy, hw'⟩ := g.notes
  refine ⟨fun p hp => g.kept p (h.kept p hp), tail ++ tail', ?_, ?_, fun p hp => ?_⟩
  · rw [ht', ht, append_assoc]
  · rw [filterMap_append, hx, hy]
  · rcases mem_append.1 hp with hp | hp
    · exact g.kept p (hw p hp)
    · exact hw' p hp

theorem progress_rearmIfLevel (m : QuicSocketEventMask) : Progress [] s (s.rearmIfLevel m) := by
  rw [rearmIfLevel_eq]
  exact { Progress.refl s with }

theorem progress_onWriteBlocked (hb : s.writeBlocked = true) : Progress [] s (s.onWriteBlocked p) := by
  have hl : ∀ q, q ∈ (s.onWriteBlocked p).writeBlockedList ↔ q ∈ s.writeBlockedList ∨ q = p := by
    intro q
    simp only [onWriteBlocked, rearmIfLevel_eq, add_eq, hb, true_and]
    split
    · simp
    next hp =>
      have hp' : p ∈ s.writeBlockedList := by simpa using hp
      exact ⟨.inl, fun h => h.elim id fun he => he ▸ hp'⟩
  have ho : (s.onWriteBlocked p).objects = s.objects := by simp only [onWriteBlocked, rearmIfLevel_eq, add_eq]
  refine ⟨fun q hq => ?_, [.writeBlocked p], ?_, rfl, fun q hq => .inl ((hl q).2 (.inr ?_))⟩
  · rcases hq with hq | hq
    · exact .inl ((hl q).2 (.inl hq))
    · exact .inr (by rwa [ho])
  · simp only [onWriteBlocked, rearmIfLevel_eq, add_eq]
  · simpa using hq

theorem progress_write (full : Bool) : Progress [] s (s.write p full) := by
  unfold write
  split
  next hb => exact progress_onWriteBlocked hb
  · split
    · have h : Progress [] s ({ s with writeBlocked := true }.rearmIfLevel kSocketEventWritable) := by
        rw [rearmIfLevel_eq]
        exact { Progress.refl s with }
      refine h.trans (progress_onWriteBlocked ?_)
      rw [rearmIfLevel_eq]
    · exact Progress.refl s

theorem progress_act (a : Act) : Progress [] s (s.act a) := by
  cases a with
  | write p full =>
    simp only [act]
    split
    · exact Progress.refl s
    · exact progress_write full
  | close p =>
    simp only [act]
    split
    · exact Progress.refl s
    · refine { Progress.refl s with kept := fun q hq => ?_, notes := ⟨[], (append_nil _).symm, rfl, fun _ h =>
        absurd h not_mem_nil⟩ }
      by_cases hqp : q = p
      · exact .inr ⟨_, lookup_insert_closed.2 (.inl ⟨hqp, rfl⟩), rfl⟩
      · rcases hq with hq | ⟨c, hc, hcl⟩
        · exact .inl (mem_remove.2 ⟨hq, hqp⟩)
        · exact .inr ⟨c, lookup_insert_closed.2 (.inr ⟨hqp, hc⟩), hcl⟩

theorem progress_acts : ∀ (as : List Act) (s : SharedSocket κ), Progress [] s (s.acts as)
  | [], s => Progress.refl s
  | a :: as, _ => (progress_act a).trans (progress_acts as _)

theorem progress_turn (p : ConnPtr) (as : List Act) : Progress [p] s (s.onBlockedWriterCanWrite p as) := by
  have h : Progress [p] s { s with writeBlocked := false, notes := s.notes ++ [Note.canWrite p] } :=
    ⟨fun _ => id, [.canWrite p], rfl, rfl, fun q hq => by simp at hq⟩
  unfold onBlockedWriterCanWrite
  dsimp only
  split
  · exact { h with }
  · split
    · exact h
    · exact h.trans (progress_acts as _)

theorem progress_turns (turn : ConnPtr → List Act) : ∀ (ps : List ConnPtr) (s : SharedSocket κ),
    Progress ps s (ps.foldl (fun s p => s.onBlockedWriterCanWrite p (turn p)) s)
  | [], s => Progress.refl s
  | p :: ps, _ => (progress_turn p (turn p)).trans (progress_turns turn ps _)

/-- One turn for each member of the list, whatever the members do in theirs. -/
theorem onWritable_turns (s : SharedSocket κ) (turn : ConnPtr → List Act) :
    Progress s.writeBlockedList { s with writeBlockedList := [] } (s.onWritable turn) := by
  have h : Progress s.writeBlockedList { s with writeBlockedList := [] }
      ({ s with writeBlocked := false }.onWriterUnblocked turn) :=
    { progress_turns turn s.writeBlockedList { s with writeBlocked := false, writeBlockedList := [] } with }
  unfold onWritable
  dsimp only
  split
  · exact h
  · have ht := h.trans (progress_rearmIfLevel kSocketEventWritable)
    rwa [append_nil] at ht

theorem progress_onSocketEvent (hm : m.writable = true) (turn : ConnPtr → List Act) :
    Progress s.writeBlockedList { s with writeBlockedList := [] } (s.onSocketEvent m turn) := by
  have h1 : Progress s.writeBlockedList { s with writeBlockedList := [] }
      ((if m.error then s.rearmIfLevel kSocketEventError else s).onWritable turn) := by
    split
    · have h := onWritable_turns (s.rearmIfLevel kSocketEventError) turn
      rw [rearmIfLevel_eq] at h ⊢
      exact { h with }
    · exact onWritable_turns s turn
  unfold onSocketEvent
  dsimp only
  rw [if_pos hm]
  split
  · have ht := h1.trans (progress_rearmIfLevel kSocketEventReadable)
    rwa [append_nil] at ht
  · exact h1

/-! ## Runs -/

theorem Inv.poll (h : Inv s) {mask : QuicSocketEventMask} (hs : s.poll mask = some t) : Inv t := by
  unfold SharedSocket.poll at hs
  split at hs
  next events hreg hready =>
    dsimp only at hs
    split at hs
    · cases hs
      exact h
    · cases hs
      refine { h with opened := fun _ _ _ => rfl, edge := fun he k hk => ?_, woken := fun hl => ?_ }
      · cases hk
        rw [if_pos he]
        exact h.edge he events hreg
      · have ha : events.writable = true := by
          rcases h.woken hl with ha | hr
          · rw [armed, hreg] at ha
            exact ha
          · rw [hready] at hr
            cases hr
        -- what is armed stays armed or has just been reported
        simp only [armed, any_some]
        split
        · exact .inl ha
        · simp only [QuicSocketEventMask.diff, QuicSocketEventMask.inter, ha]
          cases mask.writable <;> simp
  · cases hs

theorem Inv.onSocketEvent (h : Inv s) (hm : s.ready = some m) (turn : ConnPtr → List Act) :
    Inv ({ s with ready := none }.onSocketEvent m turn) := by
  have hb : Base { s with ready := none } := { h.toBase with }
  have hre : ∀ {s : SharedSocket κ}, Inv s → Inv (if m.readable then s.rearmIfLevel kSocketEventReadable else s) := by
    intro s h
    split
    · exact h.rearmIfLevel _
    · exact h
  cases hw : m.writable with
  | true =>
    unfold SharedSocket.onSocketEvent
    dsimp only
    rw [if_pos hw]
    refine hre (Base.onWritable ?_ turn)
    split
    · exact hb.rearmIfLevel _
    · exact hb
  | false =>
    have h' : Inv { s with ready := none } := by
      refine ⟨hb, fun hl => .inl ?_⟩
      rcases h.woken hl with ha | hr
      · exact ha
      · rw [hm] at hr
        cases hw.symm.trans hr
    unfold SharedSocket.onSocketEvent
    simp only [hw, Bool.false_eq_true, if_false]
    refine hre ?_
    split
    · exact h'.rearmIfLevel _
    · exact h'

theorem Inv.reopen (h : Inv s) (hn : s.objects.entries = []) (opened : Bool) : Inv (s.reopen opened) := by
  have hl : ∀ p, s.objects.lookup p = none := by
    intro p
    rw [AList.lookup_eq_none, AList.mem_keys, AList.keys, hn]
    exact not_mem_nil
  have hlist : s.writeBlockedList = [] := by
    refine eq_nil_iff_forall_not_mem.2 fun p hp => ?_
    obtain ⟨c, hc⟩ := h.blocked p hp
    cases (hl p).symm.trans (connected_eq_some.1 hc).1
  refine { h with opened := fun p c hp => ?_, edge := fun _ k hk => ?_, woken := fun hne => absurd hlist hne }
  · cases (hl p).symm.trans hp
  · simp only [SharedSocket.reopen] at hk
    split at hk
    · cases hk
      rfl
    · cases hk

theorem inv_registered (edgeTriggered : Bool) : Inv (registered edgeTriggered : SharedSocket κ) where
  nodup := List.nodup_nil
  blocked := List.forall_mem_nil _
  opened _ _ _ := rfl
  edge _ m hm := by
    cases hm
    rfl
  tame := rfl
  woken hn := absurd rfl hn

variable [DecidableEq κ]

theorem Inv.create (h : Inv s) {key : κ} (hp : p ∉ s.objects) (hr : s.registration.isSome) (as : List Act) :
    Inv (s.create p key as) := by
  rw [create_eq]
  refine Inv.acts as { h with blocked := fun q hq => ?_, opened := fun _ _ _ => hr }
  obtain ⟨c, hc⟩ := h.blocked q hq
  obtain ⟨hl, hcl⟩ := connected_eq_some.1 hc
  have hne : q ≠ p := by
    rintro rfl
    cases (AList.lookup_eq_none.2 hp).symm.trans hl
  refine ⟨c, connected_eq_some.2 ⟨?_, hcl⟩⟩
  exact (FlatMap.lookup_insert_eq _ _ _ _).trans ((if_neg hne).trans hl)

theorem Inv.collect (h : Inv s) (key : κ) : Inv (s.collect key) := by
  unfold SharedSocket.collect
  split
  · exact h
  next p _ =>
    have hl : ∀ q c, (s.objects.erase p).lookup q = some c → s.objects.lookup q = some c := by
      intro q c hq
      rw [FlatMap.lookup_erase_eq] at hq
      split at hq
      · cases hq
      · exact hq
    refine ⟨⟨h.nodup.filter _, fun q hq => ?_, fun q c hq => h.opened q c (hl q c hq), h.edge, h.tame⟩, fun hne => ?_⟩
    · obtain ⟨hq, hqp⟩ := mem_remove.1 hq
      obtain ⟨c, hc⟩ := h.blocked q hq
      obtain ⟨hc, hcl⟩ := connected_eq_some.1 hc
      exact ⟨c, connected_eq_some.2 ⟨(FlatMap.lookup_erase_eq _ _ _).trans ((if_neg hqp).trans hc), hcl⟩⟩
    · refine h.woken fun hn => hne ?_
      show s.writeBlockedList.filter (· != p) = []
      rw [hn]
      rfl

theorem Inv.collects : ∀ (ks : List κ) {s : SharedSocket κ}, Inv s → Inv (ks.foldl SharedSocket.collect s)
  | [], _, h => h
  | k :: ks, _, h => Inv.collects ks (h.collect k)

theorem Inv.collectGarbage (h : Inv s) : Inv s.collectGarbage :=
  { Inv.collects s.pendingRemoval h with }

theorem Inv.step {e : Ev κ} (h : Inv s) (hs : s.step e = some t) : Inv t := by
  cases e with
  | poll mask => exact h.poll hs
  | onSocketEvent turn =>
    obtain ⟨m, hm, rfl⟩ := map_eq_some_iff.1 hs
    exact h.onSocketEvent hm turn
  | callback as =>
    cases hs
    exact Inv.acts as h
  | create p key as =>
    obtain ⟨⟨hp, -, hr⟩, ⟨⟩⟩ := ite_none_right_eq_some.1 hs
    exact h.create hp hr as
  | reopen opened =>
    obtain ⟨hn, ⟨⟩⟩ := ite_none_right_eq_some.1 hs
    exact h.reopen hn opened
  | collectGarbage =>
    cases hs
    exact h.collectGarbage

theorem notes_write (full : Bool) (c : Connection κ) (hp : s.connected p = some c) :
    (s.act (.write p full)).notes = s.notes ++ if s.writeBlocked || full then [.writeBlocked p] else [] := by
  simp only [act, hp, write, onWriteBlocked, rearmIfLevel_eq, add_eq]
  cases s.writeBlocked <;> cases full <;> simp

structure NoneForgotten (s : SharedSocket κ) : Prop where
  recorded : Recorded s
  /-- A connection that writes is noted as blocked if the socket takes nothing, and not otherwise. -/
  noted : ∀ p full c, s.connected p = some c →
    (s.act (.write p full)).notes = s.notes ++ if s.writeBlocked || full then [.writeBlocked p] else []
  /-- The writable event is armed, unless it has been taken out to be delivered. -/
  woken : s.writeBlockedList ≠ [] → s.armed = true ∨ s.ready.any (·.writable) = true
  armed : s.writeBlockedList ≠ [] → s.ready = none → s.armed = true
  nodup : s.writeBlockedList.Nodup
  /-- A writable event ends after one turn for each member of the list, in order, and whoever blocked
  again is back on the list, or has closed. -/
  pass : ∀ m turn, s.ready = some m → m.writable = true → ∃ t tail, s.step (.onSocketEvent turn) = some t ∧
    t.notes = s.notes ++ tail ∧ tail.filterMap Note.called = s.writeBlockedList ∧
      ∀ p, .writeBlocked p ∈ tail → t.Waits p
  swept : ∀ p ∈ s.collectGarbage.writeBlockedList, ∃ c, s.collectGarbage.connected p = some c ∧ c.serial ∉ s.reported
  tame : s.wild = false

theorem no_writer_forgotten {edgeTriggered : Bool} {es : List (Ev κ)} {s : SharedSocket κ}
    (hr : Lts.run step (registered edgeTriggered) es = some s) : NoneForgotten s := by
  have h : Inv s := Lts.run_inv (fun _ _ _ => Inv.step) (inv_registered edgeTriggered) hr
  have hl : Ledger s := Lts.run_inv (fun _ _ _ => Ledger.step) (ledger_registered edgeTriggered) hr
  refine ⟨hl.recorded, fun _ => notes_write, h.woken, fun hne hn => ?_, h.nodup, fun m turn hm hw => ?_, fun p hp => ?_,
    h.tame⟩
  · rcases h.woken hne with ha | hre
    · exact ha
    · rw [hn] at hre
      cases hre
  · obtain ⟨tail, ht, hc, hb⟩ := (progress_onSocketEvent (s := { s with ready := none }) hw turn).notes
    exact ⟨_, tail, map_eq_some_iff.2 ⟨m, hm, rfl⟩, ht, hc, hb⟩
  · obtain ⟨c, hc⟩ := h.collectGarbage.blocked p hp
    refine ⟨c, hc, ?_⟩
    rw [← reported_collects s.pendingRemoval s]
    exact (hl.collectGarbage.not_reported hc).1

end

def threeWaiting : List (Ev Nat) :=
  [.create 100 1 [.write 100 true], .create 101 2 [.write 101 false], .create 102 3 [.write 102 false],
    .poll ⟨true, true, false⟩]

def threeWaitingEnd : SharedSocket Nat := (Lts.run step (registered false) threeWaiting).getD (registered false)

theorem no_writer_forgotten_threeWaiting : threeWaitingEnd.writeBlockedList = [100, 101, 102] ∧
    threeWaitingEnd.ready = some ⟨true, true, false⟩ ∧ NoneForgotten threeWaitingEnd := by
  have hr : Lts.run step (registered false) threeWaiting = some threeWaitingEnd := by rfl
  exact ⟨by decide +kernel, by decide +kernel, no_writer_forgotten hr⟩

/-- The first blocks again, the second closes the third: the third still gets its turn, and the
event is armed for the first. -/
example : ((threeWaitingEnd.step (.onSocketEvent fun p => if p = 100 then [.write 100 true] else [.close 102])).any
    fun t => t.writeBlockedList == [100] && t.armed &&
      t.notes.filterMap Note.called == [100, 101, 102]) = true := by decide +kernel

end SharedSocket

end Quictun
