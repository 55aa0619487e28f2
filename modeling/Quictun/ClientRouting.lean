import Quictun.ClientDriver

/-!
# Packet routing of the client driver

`CreateNewConnection()` enters a connection into `by_cid_` after its constructor has
returned. If a write of the first flight fails, `RemoveConnection()` has run before that,
with nothing to take out: the entry made afterwards stays in `by_cid_` when
`CollectGarbage()` destroys the connection (`failed_first_flight_dangles`). If no
connection closes inside its constructor, and the 64-bit counter does not come back to an
ID in use, `by_cid_` routes to exactly the connections that are owned and not removed.
-/

namespace Quictun

open Client Option List

namespace QuictunClientDriver

def Serving (d : QuictunClientDriver) (p : ConnPtr) (h : HeldConnection) : Prop :=
  d.connections.lookup p = some h ∧ h.connection.closed = false

/-- The lists hold no connection that was removed. -/
structure Listed (d : QuictunClientDriver) : Prop where
  blocked : ∀ i p, p ∈ (d.udpSockets i).writeBlockedList → ∃ h, d.Serving p h ∧ h.socketIndex = i
  removed : ∀ p ∈ d.pendingRemoval, ∃ h, d.connections.lookup p = some h ∧ h.connection.closed = true

structure Inv (d : QuictunClientDriver) : Prop extends Listed d where
  entry : ∀ cid p, d.byCid.lookup cid = some p → ∃ h, d.Serving p h ∧ h.connection.clientConnectionId = cid
  routed : ∀ p h, d.Serving p h → d.byCid.lookup h.connection.clientConnectionId = some p
  pending : ∀ p h, d.connections.lookup p = some h → h.connection.closed = true → p ∈ d.pendingRemoval
  tame : d.wild = false

/-! ## Sockets -/

variable {u : UdpSocket} {p q : ConnPtr}

theorem mem_blocked_add : q ∈ (u.add p).writeBlockedList ↔ q ∈ u.writeBlockedList ∨ q = p := by
  unfold UdpSocket.add
  by_cases hp : p ∈ u.writeBlockedList
  · rw [if_pos hp]
    exact ⟨.inl, fun h => h.elim id fun he => he ▸ hp⟩
  · simp [hp]

theorem mem_blocked_remove : q ∈ (u.remove p).writeBlockedList ↔ q ∈ u.writeBlockedList ∧ q ≠ p := by
  simp [UdpSocket.remove]

section
variable (d : QuictunClientDriver)

theorem udpSockets_modifySocket (i j : Nat) (f : UdpSocket → UdpSocket) :
    (d.modifySocket i f).udpSockets j = if j = i then f (d.udpSockets i) else d.udpSockets j := by
  by_cases h : j = i
  · subst h
    simp [modifySocket]
  · simp [modifySocket, h]

theorem blocked_closeUdpSocket (i j : Nat) :
    ((d.closeUdpSocket i).udpSockets j).writeBlockedList = (d.udpSockets j).writeBlockedList := by
  unfold closeUdpSocket
  split
  · simp only [udpSockets_modifySocket]
    split
    next h => rw [h]
    · rfl
  · rfl

theorem blocked_openUdpSocket (i j : Nat) (r : OpenOutcome) :
    ((d.openUdpSocket i r).1.udpSockets j).writeBlockedList = (d.udpSockets j).writeBlockedList := by
  cases r with
  | opened fd =>
    rw [← blocked_closeUdpSocket d i j]
    unfold openUdpSocket
    dsimp only
    split
    · rfl
    · simp only [udpSockets_modifySocket]
      split
      next h => rw [h]
      · rfl
  | _ => exact blocked_closeUdpSocket d i j

def SameRouting (d e : QuictunClientDriver) : Prop :=
  e.byCid = d.byCid ∧ (∀ p, e.connections.lookup p = d.connections.lookup p) ∧ e.pendingRemoval = d.pendingRemoval ∧
    e.wild = d.wild ∧ ∀ i, (e.udpSockets i).writeBlockedList = (d.udpSockets i).writeBlockedList

theorem Listed.sameRouting {d e : QuictunClientDriver} (h : d.Listed) (hs : SameRouting d e) : e.Listed := by
  obtain ⟨-, hc, hp, -, hu⟩ := hs
  constructor
  · simpa only [hu, Serving, hc] using h.blocked
  · simpa only [hp, hc] using h.removed

theorem Inv.sameRouting {d e : QuictunClientDriver} (h : d.Inv) (hs : SameRouting d e) : e.Inv := by
  refine ⟨h.toListed.sameRouting hs, ?_, ?_, ?_, ?_⟩ <;> obtain ⟨hb, hc, hp, hw, -⟩ := hs
  · simpa only [hb, Serving, hc] using h.entry
  · simpa only [hb, Serving, hc] using h.routed
  · simpa only [hp, hc] using h.pending
  · rw [hw]
    exact h.tame

theorem sameRouting_openUdpSocket (i : Nat) (r : OpenOutcome) :
    SameRouting d (d.openUdpSocket i r).1 := by
  have hc : SameRouting d (d.closeUdpSocket i) := by
    refine ⟨?_, ?_, ?_, ?_, fun j => blocked_closeUdpSocket d i j⟩ <;>
    · unfold closeUdpSocket
      split <;> simp [modifySocket]
  obtain ⟨hb, hl, hp, hw, _⟩ := hc
  cases r with
  | opened fd =>
    refine ⟨?_, ?_, ?_, ?_, fun j => blocked_openUdpSocket d i j _⟩
    all_goals
      unfold openUdpSocket
      dsimp only
      split <;> assumption
  | _ => exact ⟨hb, hl, hp, hw, fun j => blocked_openUdpSocket d i j _⟩

theorem sameRouting_reopenIfIdle (i : Nat) (r : OpenOutcome) :
    SameRouting d (d.reopenIfIdle i r).1 := by
  unfold reopenIfIdle
  split
  · exact sameRouting_openUdpSocket d i r
  · exact ⟨rfl, fun _ => rfl, rfl, rfl, fun _ => rfl⟩

end

/-! ## A connection runs -/

theorem Listed.onWriteBlocked {d : QuictunClientDriver} (hd : d.Listed) {p : ConnPtr} {h : HeldConnection}
    (hs : d.Serving p h) : (d.onWriteBlocked p h.socketIndex).Listed := by
  refine { hd with blocked := fun j q hq => ?_ }
  rw [QuictunClientDriver.onWriteBlocked, udpSockets_modifySocket] at hq
  split at hq
  next hj =>
    rcases mem_blocked_add.1 hq with hq | rfl
    · exact hd.blocked j q (hj ▸ hq)
    · exact ⟨h, hs, hj.symm⟩
  · exact hd.blocked j q hq

section
variable {d : QuictunClientDriver} {p : ConnPtr} {c : QuictunClientConnection} {i : Nat}

theorem lookup_hold_removeConnection {q : ConnPtr} (hq : q ≠ p) :
    ((d.removeConnection p i).hold p ⟨{ c with closed := true }, i⟩).connections.lookup q =
      (d.hold p ⟨c, i⟩).connections.lookup q := by
  simp only [hold, FlatMap.lookup_insert_eq, if_neg hq]
  rfl

theorem serving_hold_removeConnection {q : ConnPtr} (hq : q ≠ p) (h : HeldConnection) :
    ((d.removeConnection p i).hold p ⟨{ c with closed := true }, i⟩).Serving q h ↔ (d.hold p ⟨c, i⟩).Serving q h := by
  rw [Serving, Serving, lookup_hold_removeConnection hq]

theorem Listed.removeConnection (hd : (d.hold p ⟨c, i⟩).Listed) :
    ((d.removeConnection p i).hold p ⟨{ c with closed := true }, i⟩).Listed := by
  refine ⟨fun j q hq => ?_, fun q hq => ?_⟩
  · have hq' : q ∈ ((d.modifySocket i (·.remove p)).udpSockets j).writeBlockedList := hq
    rw [udpSockets_modifySocket] at hq'
    have hm : q ∈ (d.udpSockets j).writeBlockedList := by
      split at hq'
      next hj => exact hj ▸ (mem_blocked_remove.1 hq').1
      · exact hq'
    obtain ⟨h, hs, hh⟩ := hd.blocked j q hm
    have hne : q ≠ p := by
      rintro rfl
      have he := hs.1
      rw [hold, AList.lookup_insert, some.injEq] at he
      rw [← he] at hh
      rw [if_pos hh.symm] at hq'
      exact (mem_blocked_remove.1 hq').2 rfl
    exact ⟨h, (serving_hold_removeConnection hne h).2 hs, hh⟩
  · by_cases hqp : q = p
    · rw [hqp]
      exact ⟨_, AList.lookup_insert _, rfl⟩
    · rw [lookup_hold_removeConnection hqp]
      exact hd.removed q ((mem_append.1 hq).resolve_right fun h => hqp (mem_singleton.1 h))

theorem inv_hold_removeConnection (hi : (d.hold p ⟨c, i⟩).Inv) :
    ((d.removeConnection p i).hold p ⟨{ c with closed := true }, i⟩).Inv := by
  refine ⟨hi.toListed.removeConnection, ?_, ?_, fun q h hq hc => ?_, hi.tame⟩
  · intro cid q hq
    obtain ⟨hq, hne⟩ := FlatMap.lookup_eraseIf_eq_some.1 hq
    obtain ⟨h, hs, hcid⟩ := hi.entry cid q hq
    exact ⟨h, (serving_hold_removeConnection (by simpa using hne) h).2 hs, hcid⟩
  · intro q h hs
    have hne : q ≠ p := by
      rintro rfl
      have he := hs.1
      rw [hold, AList.lookup_insert, some.injEq] at he
      cases he ▸ hs.2
    exact FlatMap.lookup_eraseIf_eq_some.2
      ⟨hi.routed q h ((serving_hold_removeConnection hne h).1 hs), by simpa using hne⟩
  · by_cases hqp : q = p
    · exact mem_append_right _ (mem_singleton.2 hqp)
    · exact mem_append_left _ (hi.pending q h ((lookup_hold_removeConnection hqp).symm.trans hq) hc)

end

variable {d : QuictunClientDriver} {i : Nat}

theorem lookup_hold_self {h : HeldConnection} (hp : d.connections.lookup p = some h) (q : ConnPtr) :
    (d.hold p h).connections.lookup q = d.connections.lookup q := by
  rw [hold, FlatMap.lookup_insert_eq]
  split
  next hq => rw [hq, hp]
  · rfl

theorem connections_report (p : ConnPtr) (i : Nat) (s : QuictunClientConnection × QuictunClientDriver) (o : Outcome) :
    (report p i s o).2.connections = s.2.connections := by
  cases o with
  | written => rfl
  | blocked =>
    simp only [report]
    split <;> rfl
  | closed =>
    simp only [report, close]
    split <;> rfl

theorem connections_reports (p : ConnPtr) (i : Nat) :
    ∀ (os : List Outcome) (s : QuictunClientConnection × QuictunClientDriver),
      (os.foldl (report p i) s).2.connections = s.2.connections
  | [], _ => rfl
  | o :: os, s => (connections_reports p i os _).trans (connections_report p i s o)

theorem mem_connections_act {os : List Outcome} (hq : q ∈ d.connections) : q ∈ (d.act p os).connections := by
  unfold QuictunClientDriver.act
  split
  · exact hq
  next h hh =>
    refine (AList.mem_insert _).2 (.inr ?_)
    rw [connections_reports]
    exact hq

/-- What is kept when a connection finds its writer blocked and when it closes. -/
structure Stable (P : QuictunClientDriver → Prop) : Prop where
  hold : ∀ {d : QuictunClientDriver} {p h}, d.connections.lookup p = some h → P d → P (d.hold p h)
  blocked : ∀ {d : QuictunClientDriver} {p h}, d.Serving p h → P d → P (d.onWriteBlocked p h.socketIndex)
  close : ∀ {d : QuictunClientDriver} {p c i}, c.closed = false → P (d.hold p ⟨c, i⟩) →
    P ((d.removeConnection p i).hold p ⟨{ c with closed := true }, i⟩)

section
variable {P : QuictunClientDriver → Prop} (hP : Stable P)
include hP

theorem Stable.report {c : QuictunClientConnection} (h : P (d.hold p ⟨c, i⟩)) (o : Outcome) :
    P ((report p i (c, d) o).2.hold p ⟨(report p i (c, d) o).1, i⟩) := by
  cases o with
  | written => exact h
  | blocked =>
    simp only [QuictunClientDriver.report]
    split
    · exact h
    next hc => exact hP.blocked (p := p) ⟨AList.lookup_insert _, by simpa using hc⟩ h
  | closed =>
    simp only [QuictunClientDriver.report, QuictunClientDriver.close]
    split
    · exact h
    next hc => exact hP.close (by simpa using hc) h

theorem Stable.reports : ∀ (os : List Outcome) {s : QuictunClientConnection × QuictunClientDriver},
    P (s.2.hold p ⟨s.1, i⟩) → P ((os.foldl (QuictunClientDriver.report p i) s).2.hold p
      ⟨(os.foldl (QuictunClientDriver.report p i) s).1, i⟩)
  | [], _, h => h
  | o :: os, _, h => Stable.reports os (hP.report h o)

theorem Stable.act {os : List Outcome} (hw : p ∉ d.connections → P { d with wild := true }) (h : P d) :
    P (d.act p os) := by
  unfold QuictunClientDriver.act
  split
  next hp => exact hw (AList.lookup_eq_none.1 hp)
  next k hk => exact hP.reports (s := (k.connection, d)) os (hP.hold hk h)

theorem Stable.acts (os : ConnPtr → List Outcome) : ∀ (ps : List ConnPtr) {d : QuictunClientDriver},
    (∀ p ∈ ps, p ∈ d.connections) → P d → P (ps.foldl (fun d p => d.act p (os p)) d)
  | [], _, _, h => h
  | p :: ps, _, hp, h => Stable.acts os ps (fun q hq => mem_connections_act (hp q (mem_cons_of_mem p hq)))
      (hP.act (absurd (hp p mem_cons_self)) h)

theorem Stable.onWriterUnblocked (os : ConnPtr → List Outcome) (hd : d.Listed)
    (h : P (d.modifySocket i fun u => { u with writeBlockedList := [] })) : P (d.onWriterUnblocked i os) := by
  refine hP.acts os _ (fun p hp => ?_) h
  obtain ⟨k, hs, -⟩ := hd.blocked i p hp
  exact AList.lookup_isSome.1 (isSome_iff_exists.2 ⟨k, hs.1⟩)

end

theorem stable_inv : Stable Inv where
  hold hp hi := hi.sameRouting ⟨rfl, lookup_hold_self hp, rfl, rfl, fun _ => rfl⟩
  blocked hs hi := { hi with toListed := hi.toListed.onWriteBlocked hs }
  close _ := inv_hold_removeConnection

variable {h : HeldConnection}

theorem Inv.act {d : QuictunClientDriver} (hi : d.Inv) {p : ConnPtr} (hp : p ∈ d.connections) (os : List Outcome) :
    (d.act p os).Inv := stable_inv.act (absurd hp) hi

theorem Listed.clear (hd : d.Listed) (i : Nat) :
    (d.modifySocket i fun u => { u with writeBlockedList := [] }).Listed := by
  refine { hd with blocked := fun j q hq => hd.blocked j q ?_ }
  rw [udpSockets_modifySocket] at hq
  split at hq
  · exact absurd hq not_mem_nil
  · exact hq

/-! ## Garbage -/

theorem collect_eq (d : QuictunClientDriver) (p : ConnPtr) :
    (d.collect p).byCid = d.byCid ∧ (d.collect p).wild = d.wild ∧
      ∀ i q, q ∈ ((d.collect p).udpSockets i).writeBlockedList → q ∈ (d.udpSockets i).writeBlockedList := by
  unfold collect
  split
  · exact ⟨rfl, rfl, fun i q hq => (mem_blocked_remove.1 hq).1⟩
  · exact ⟨rfl, rfl, fun _ _ => id⟩

theorem lookup_collect (d : QuictunClientDriver) (p q : ConnPtr) :
    (d.collect p).connections.lookup q = if q = p then none else d.connections.lookup q := by
  unfold collect
  split
  · exact FlatMap.lookup_erase_eq _ _ _
  next hp =>
    split
    next hq => exact hq ▸ AList.lookup_eq_none.2 hp
    · rfl

theorem collects_eq : ∀ (ps : List ConnPtr) (d : QuictunClientDriver),
    (ps.foldl collect d).byCid = d.byCid ∧ (ps.foldl collect d).wild = d.wild ∧
      (∀ i q, q ∈ ((ps.foldl collect d).udpSockets i).writeBlockedList → q ∈ (d.udpSockets i).writeBlockedList) ∧
      ∀ q, (ps.foldl collect d).connections.lookup q = if q ∈ ps then none else d.connections.lookup q
  | [], d => ⟨rfl, rfl, fun _ _ => id, fun _ => (if_neg not_mem_nil).symm⟩
  | p :: ps, d => by
    obtain ⟨hb, hw, hu, hl⟩ := collects_eq ps (d.collect p)
    obtain ⟨hb', hw', hu'⟩ := collect_eq d p
    refine ⟨hb.trans hb', hw.trans hw', fun i q hq => hu' i q (hu i q hq), fun q => ?_⟩
    rw [foldl_cons, hl, lookup_collect]
    by_cases hq : q = p <;> by_cases hqs : q ∈ ps <;> simp [hq, hqs]

theorem Listed.not_pending (hd : d.Listed) (hs : d.Serving p h) : p ∉ d.pendingRemoval := by
  intro hp
  obtain ⟨h', hl, hc⟩ := hd.removed p hp
  obtain rfl : h = h' := some.inj (hs.1.symm.trans hl)
  cases hs.2.symm.trans hc

theorem Listed.serving_collectGarbage (hd : d.Listed) (hs : d.Serving p h) : d.collectGarbage.Serving p h :=
  ⟨((collects_eq d.pendingRemoval d).2.2.2 p).trans ((if_neg (hd.not_pending hs)).trans hs.1), hs.2⟩

theorem Listed.collectGarbage {d : QuictunClientDriver} (hd : d.Listed) : d.collectGarbage.Listed := by
  refine ⟨fun i p hp => ?_, forall_mem_nil _⟩
  obtain ⟨h, hs, hh⟩ := hd.blocked i p ((collects_eq d.pendingRemoval d).2.2.1 i p hp)
  exact ⟨h, hd.serving_collectGarbage hs, hh⟩

theorem Inv.collectGarbage {d : QuictunClientDriver} (hi : d.Inv) : d.collectGarbage.Inv := by
  obtain ⟨hb, hw, -, hl⟩ := collects_eq d.pendingRemoval d
  have hleft : ∀ {p h}, d.collectGarbage.connections.lookup p = some h → d.Serving p h := by
    intro p h hp
    have hp' := (hl p).symm.trans hp
    split at hp'
    · cases hp'
    next hn =>
      refine ⟨hp', ?_⟩
      by_contra hc
      exact hn (hi.pending p h hp' (by simpa using hc))
  refine ⟨hi.toListed.collectGarbage, ?_, ?_, fun p h hp hc => ?_, hw.trans hi.tame⟩
  · intro cid p hp
    have hp' : d.byCid.lookup cid = some p := by
      rw [← hb]
      exact hp
    obtain ⟨h, hs, hcid⟩ := hi.entry cid p hp'
    exact ⟨h, hi.serving_collectGarbage hs, hcid⟩
  · intro p h hs
    show (d.pendingRemoval.foldl collect d).byCid.lookup _ = some p
    rw [hb]
    exact hi.routed p h (hleft hs.1)
  · cases (hleft hp).2.symm.trans hc

/-! ## A new connection -/

theorem onWriteBlocked_idem (d : QuictunClientDriver) (p : ConnPtr) (i : Nat) :
    (d.onWriteBlocked p i).onWriteBlocked p i = d.onWriteBlocked p i := by
  have hadd : ∀ u : UdpSocket, (u.add p).add p = u.add p := by
    intro u
    have hp : p ∈ (u.add p).writeBlockedList := mem_blocked_add.2 (.inr rfl)
    rw [UdpSocket.add, if_pos hp]
  simp [onWriteBlocked, modifySocket, hadd]

theorem reports_of_not_closed (p : ConnPtr) (i : Nat) : ∀ (os : List Outcome), .closed ∉ os →
    ∀ {c : QuictunClientConnection} {d : QuictunClientDriver}, c.closed = false →
      os.foldl (report p i) (c, d) = (c, d) ∨ os.foldl (report p i) (c, d) = (c, d.onWriteBlocked p i)
  | [], _, _, _, _ => .inl rfl
  | o :: os, ho, c, d, hc => by
    have hos : .closed ∉ os := fun h => ho (mem_cons_of_mem o h)
    cases o with
    | closed => exact absurd mem_cons_self ho
    | written => exact reports_of_not_closed p i os hos hc
    | blocked =>
      have hr : report p i (c, d) .blocked = (c, d.onWriteBlocked p i) := by simp [report, hc]
      rw [foldl_cons, hr]
      rcases reports_of_not_closed p i os hos (d := d.onWriteBlocked p i) hc with h | h
      · exact .inr h
      · rw [onWriteBlocked_idem] at h
        exact .inr h

theorem serving_register
    (hp : d.connections.lookup p = none) (hc : h.connection.closed = false) : (d.register p h).Serving p h := by
  refine ⟨?_, hc⟩
  rw [register, FlatMap.lookup_emplace_of_none hp, if_pos rfl]

theorem Listed.hold_new {d : QuictunClientDriver} (hd : d.Listed) {p : ConnPtr} (hp : d.connections.lookup p = none)
    (k : HeldConnection) : (d.hold p k).Listed := by
  have hl : ∀ q l, d.connections.lookup q = some l → (d.hold p k).connections.lookup q = some l := by
    intro q l hq
    have hqp : q ≠ p := by
      rintro rfl
      cases hp.symm.trans hq
    rw [hold, FlatMap.lookup_insert_eq, if_neg hqp, hq]
  constructor
  · intro j q hq
    obtain ⟨l, hs, hj⟩ := hd.blocked j q hq
    exact ⟨l, ⟨hl q l hs.1, hs.2⟩, hj⟩
  · intro q hq
    obtain ⟨l, hq, hc⟩ := hd.removed q hq
    exact ⟨l, hl q l hq, hc⟩

theorem register_eq (hp : d.connections.lookup p = none) (k : HeldConnection) :
    d.register p k = { d.hold p k with byCid := d.byCid.emplace k.connection.clientConnectionId p } := by
  rw [register, FlatMap.emplace, FlatMap.emplace, if_neg (AList.lookup_eq_none.1 hp)]
  rfl

theorem Inv.register {d : QuictunClientDriver} (hi : d.Inv) {p : ConnPtr} {h : HeldConnection}
    (hp : d.connections.lookup p = none) (hcid : d.byCid.lookup h.connection.clientConnectionId = none)
    (hc : h.connection.closed = false) : (d.register p h).Inv := by
  have hl : ∀ q, (d.register p h).connections.lookup q = if q = p then some h else d.connections.lookup q :=
    fun q => FlatMap.lookup_emplace_of_none hp q h
  have hb : ∀ k, (d.register p h).byCid.lookup k =
      if k = h.connection.clientConnectionId then some p else d.byCid.lookup k :=
    fun k => FlatMap.lookup_emplace_of_none hcid k p
  have hkeeps : ∀ {q h'}, d.Serving q h' → (d.register p h).Serving q h' := by
    intro q h' hs
    have hq : q ≠ p := by
      rintro rfl
      cases hp.symm.trans hs.1
    exact ⟨(hl q).trans ((if_neg hq).trans hs.1), hs.2⟩
  have hlist : (d.register p h).Listed := by
    rw [register_eq hp]
    exact { hi.toListed.hold_new hp h with }
  refine ⟨hlist, ?_, ?_, fun q h' hq hc' => ?_, hi.tame⟩
  · intro cid q hq
    rw [hb] at hq
    split at hq
    next hk =>
      cases hq
      exact ⟨h, serving_register hp hc, hk.symm⟩
    · obtain ⟨h', hs, hk⟩ := hi.entry cid q hq
      exact ⟨h', hkeeps hs, hk⟩
  · intro q h' hs
    have hs' := hs.1
    rw [hl] at hs'
    rw [hb]
    split at hs'
    next hq =>
      cases hs'
      rw [if_pos rfl, hq]
    · have hr := hi.routed q h' ⟨hs', hs.2⟩
      rw [if_neg]
      · exact hr
      · intro hk
        rw [← hk] at hcid
        cases hcid.symm.trans hr
  · rw [hl] at hq
    split at hq
    · cases hq
      cases hc.symm.trans hc'
    · exact hi.pending q h' hq hc'

theorem inv_create_register (hi : d.Inv) {a : Accepted}
    (hp : d.connections.lookup a.address = none) (hcid : d.byCid.lookup d.nextClientCid = none)
    (hh : .closed ∉ a.handshake) :
    ((d.create i a).2.register a.address ⟨(d.create i a).1, i⟩).Inv ∧
      a.address ∈ ((d.create i a).2.register a.address ⟨(d.create i a).1, i⟩).connections := by
  let c : QuictunClientConnection :=
    { serial := d.nextSerial, clientConnectionId := d.nextClientCid, writer := (d.udpSockets i).writer }
  let e : QuictunClientDriver := { d with nextClientCid := d.nextClientCid + 1, nextSerial := d.nextSerial + 1 }
  have he : e.Inv := hi.sameRouting ⟨rfl, fun _ => rfl, rfl, rfl, fun _ => rfl⟩
  have hr : (e.register a.address ⟨c, i⟩).Inv := he.register hp hcid rfl
  have hs : (e.register a.address ⟨c, i⟩).Serving a.address ⟨c, i⟩ := serving_register hp rfl
  have hm : a.address ∈ (e.register a.address ⟨c, i⟩).connections :=
    AList.lookup_isSome.1 (isSome_iff_exists.2 ⟨_, hs.1⟩)
  rcases reports_of_not_closed a.address i a.handshake hh (c := c) (d := e) rfl with h | h
  · have hcr : d.create i a = (c, e) := h
    rw [hcr]
    exact ⟨hr, hm⟩
  · have hcr : d.create i a = (c, e.onWriteBlocked a.address i) := h
    rw [hcr]
    exact ⟨stable_inv.blocked hs hr, hm⟩

theorem nextClientCid_reopenIfIdle (d : QuictunClientDriver) (i : Nat) (r : OpenOutcome) :
    (d.reopenIfIdle i r).1.nextClientCid = d.nextClientCid := by
  have hc : (d.closeUdpSocket i).nextClientCid = d.nextClientCid := by
    unfold closeUdpSocket
    split <;> rfl
  unfold reopenIfIdle
  split
  · unfold openUdpSocket
    split
    · dsimp only
      split <;> exact hc
    all_goals exact hc
  · rfl

theorem Inv.createNewConnection {d : QuictunClientDriver} (hi : d.Inv) {i : Nat} {a : Accepted}
    (hp : a.address ∉ d.connections) (hcid : d.byCid.lookup d.nextClientCid = none) (hh : .closed ∉ a.handshake) :
    (d.createNewConnection i a).1.Inv ∧
      ∀ w, (d.createNewConnection i a).2 = some w → w.address ∈ (d.createNewConnection i a).1.connections := by
  have hsame := sameRouting_reopenIfIdle d i a.reopened
  have hi' := hi.sameRouting hsame
  obtain ⟨hb, hl, _, _, _⟩ := hsame
  unfold QuictunClientDriver.createNewConnection
  dsimp only
  split
  · have hp' : (d.reopenIfIdle i a.reopened).1.connections.lookup a.address = none :=
      (hl _).trans (AList.lookup_eq_none.2 hp)
    have hcid' : (d.reopenIfIdle i a.reopened).1.byCid.lookup (d.reopenIfIdle i a.reopened).1.nextClientCid = none := by
      rw [hb, nextClientCid_reopenIfIdle]
      exact hcid
    obtain ⟨hr, hm⟩ := inv_create_register (i := i) hi' hp' hcid' hh
    exact ⟨hr, fun w hw => some.inj hw ▸ hm⟩
  · exact ⟨hi', nofun⟩

theorem mem_connections_of_slot {idx : Nat} (hp : d.slot idx = some p) : p ∈ d.connections := by
  obtain ⟨⟨q, h⟩, hl, hq⟩ := bind_eq_some_iff.1 hp
  obtain ⟨w, _, hw⟩ := bind_eq_some_iff.1 hl
  obtain ⟨h', hh, hs⟩ := bind_eq_some_iff.1 hw
  have hqp : q = p := by
    split at hq
    · cases hq
    · exact some.inj hq
  have hwq : w.address = q := by
    split at hs
    · exact congrArg Prod.fst (some.inj hs)
    · cases hs
  rw [← hqp, ← hwq]
  exact AList.lookup_isSome.1 (isSome_iff_exists.2 ⟨h', hh⟩)

/-! ## Runs -/

def opensCleanly (d : QuictunClientDriver) : Ev → Prop
  | .accept a => d.slot d.nextSlot = none → .closed ∉ a.handshake ∧ d.byCid.lookup d.nextClientCid = none
  | _ => True

instance (d : QuictunClientDriver) (e : Ev) : Decidable (d.opensCleanly e) := by
  cases e <;> unfold opensCleanly <;> infer_instance

theorem Inv.accept {d : QuictunClientDriver} (hi : d.Inv) {a : Accepted} (ha : a.address ∉ d.connections)
    (hc : d.opensCleanly (.accept a)) : (d.accept a).Inv := by
  unfold QuictunClientDriver.accept
  split
  · exact hi
  have hi1 : ({ d with poolRoundRobinNext := d.poolRoundRobinNext + 1 } : QuictunClientDriver).Inv :=
    hi.sameRouting ⟨rfl, fun _ => rfl, rfl, rfl, fun _ => rfl⟩
  dsimp only
  split
  next p hp => exact hi1.act (mem_connections_of_slot hp) _
  next hslot =>
    obtain ⟨hh, hcid⟩ := hc hslot
    obtain ⟨hi2, hw⟩ := hi1.createNewConnection (i := d.nextSlot % d.udpSocketCount) ha hcid hh
    split
    next heq =>
      rw [heq] at hi2
      exact hi2
    next w heq =>
      rw [heq] at hi2 hw
      have hm := hw w rfl
      refine Inv.act ?_ ?_ _
      · exact hi2.sameRouting ⟨rfl, fun _ => rfl, rfl, rfl, fun _ => rfl⟩
      · exact hm

theorem step_inv {d d' : QuictunClientDriver} {e : Ev} (hi : d.Inv) (hc : d.opensCleanly e) (hs : d.step e = some d') :
    d'.Inv := by
  cases e with
  | accept a =>
    obtain ⟨ha, ⟨⟩⟩ := ite_none_left_eq_some.1 hs
    exact hi.accept ha hc
  | packet destination os =>
    cases hs
    unfold processPacket
    split
    · exact hi
    next p hp =>
      obtain ⟨cid, _, hcid⟩ := bind_eq_some_iff.1 hp
      obtain ⟨h, hsv, _⟩ := hi.entry cid p hcid
      exact hi.act (AList.lookup_isSome.1 (isSome_iff_exists.2 ⟨h, hsv.1⟩)) os
  | act p os =>
    obtain ⟨hp, ⟨⟩⟩ := ite_none_right_eq_some.1 hs
    exact hi.act hp os
  | writable i os =>
    cases hs
    exact stable_inv.onWriterUnblocked os hi.toListed { hi with toListed := hi.toListed.clear i }
  | collectGarbage =>
    cases hs
    exact hi.collectGarbage

theorem inv_opens (opens : Nat → OpenOutcome) : ∀ (is : List Nat) {d : QuictunClientDriver}, d.Inv →
    (is.foldl (fun d i => (d.openUdpSocket i (opens i)).1) d).Inv
  | [], _, hi => hi
  | i :: is, d, hi => inv_opens opens is (hi.sameRouting (sameRouting_openUdpSocket d i (opens i)))

theorem start_inv (transparent : Bool) (udpSocket connPerUdp : Nat) (opens : Nat → OpenOutcome) :
    (start transparent udpSocket connPerUdp opens).Inv := by
  exact inv_opens opens _ ⟨⟨nofun, nofun⟩, nofun, nofun, nofun, rfl⟩

/-- Packets are routed to exactly the connections that are owned and not removed. -/
theorem routes_to_serving {transparent : Bool} {udpSocket connPerUdp : Nat} {opens : Nat → OpenOutcome} {es : List Ev}
    {d : QuictunClientDriver} (hr : Lts.run step (start transparent udpSocket connPerUdp opens) es = some d)
    (hc : Lts.AllSteps step opensCleanly (start transparent udpSocket connPerUdp opens) es) :
    (∀ cid p, d.byCid.lookup cid = some p → p ∉ d.pendingRemoval ∧ ∃ h, d.Serving p h) ∧
      (∀ p h, d.connections.lookup p = some h → p ∉ d.pendingRemoval → ∃! cid, d.byCid.lookup cid = some p) ∧
      (∀ destination p, d.recipient destination = some p → p ∉ d.pendingRemoval ∧ ∃ h, d.Serving p h) ∧
      d.wild = false := by
  have hi : d.Inv := Lts.run_inv_of (fun _ _ _ => step_inv) (start_inv transparent udpSocket connPerUdp opens) hc hr
  have hentry : ∀ cid p, d.byCid.lookup cid = some p → p ∉ d.pendingRemoval ∧ ∃ h, d.Serving p h := by
    intro cid p hp
    obtain ⟨h, hs, _⟩ := hi.entry cid p hp
    exact ⟨hi.not_pending hs, h, hs⟩
  refine ⟨hentry, ?_, ?_, hi.tame⟩
  · intro p h hp hn
    have hopen : h.connection.closed = false := by
      by_contra hcl
      exact hn (hi.pending p h hp (by simpa using hcl))
    refine ⟨h.connection.clientConnectionId, hi.routed p h ⟨hp, hopen⟩, ?_⟩
    intro cid hcid
    obtain ⟨h', hs, hk⟩ := hi.entry cid p hcid
    obtain rfl : h = h' := some.inj (hp.symm.trans hs.1)
    exact hk.symm
  · intro destination p hp
    obtain ⟨cid, _, hcid⟩ := bind_eq_some_iff.1 hp
    exact hentry cid p hcid

def addressReused : List Ev :=
  [.accept { address := 100, reopened := .opened 6, handshake := [.written, .blocked] },
    .accept { address := 200, reopened := .opened 7, handshake := [.written] },
    .writable 0 fun _ => [.written], .packet (some 1) [.written, .closed], .packet (some 1) [], .collectGarbage,
    .accept { address := 100, reopened := .opened 8, assigned := [.blocked] }, .packet (some 3) [.written]]

def addressReusedEnd : QuictunClientDriver :=
  (Lts.run step (start false 2 1 fun _ => .opened 5) addressReused).getD (start false 2 1 fun _ => .opened 5)

theorem run_addressReused : Lts.run step (start false 2 1 fun _ => .opened 5) addressReused =
    some addressReusedEnd := by
  rfl

theorem routes_to_serving_addressReused :
    addressReusedEnd.recipient (some 1) = none ∧ addressReusedEnd.recipient (some 3) = some 100 ∧
      ∃ h, addressReusedEnd.Serving 100 h := by
  have hthird : addressReusedEnd.recipient (some 3) = some 100 := by decide +kernel
  refine ⟨by decide +kernel, hthird, ?_⟩
  exact ((routes_to_serving run_addressReused (Lts.allSteps_of_check (by decide +kernel))).2.2.1 _ _ hthird).2

def failedFirstFlight : List Ev :=
  [.accept { address := 100, reopened := .opened 6, handshake := [.written, .closed] }]

/-- `RemoveConnection()` has run before the entry is made: the entry routes to a connection that is
queued for destruction, and after `CollectGarbage()` to one that has been destroyed. -/
theorem failed_first_flight_dangles :
    ((Lts.run step (start false 1 1 fun _ => .opened 5) failedFirstFlight).any fun d =>
        d.recipient (some 1) == some 100 && d.pendingRemoval == [100]) = true ∧
      ((Lts.run step (start false 1 1 fun _ => .opened 5) (failedFirstFlight ++ [.collectGarbage])).any fun d =>
        d.recipient (some 1) == some 100 && d.connections.lookup 100 == none) = true ∧
      ((Lts.run step (start false 1 1 fun _ => .opened 5)
        (failedFirstFlight ++ [.collectGarbage, .packet (some 1) []])).any fun d => d.wild) = true := by
  refine ⟨?_, ?_, ?_⟩ <;> decide +kernel

end QuictunClientDriver

end Quictun
