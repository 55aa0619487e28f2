import Quictun.SharedSocket

/-!
# Closing and erasing connections

`RemoveConnection()` queues the key of a connection that has closed and
`CollectGarbage()` erases by key, later. A close may come while the connection is
still being constructed, before there is an entry to erase. The ledger relates the
closes that were reported to the connections that exist and to those that were erased.
-/

namespace Quictun

open Udp List

namespace SharedSocket

section
variable {κ : Type*} {s t : SharedSocket κ} {p q : ConnPtr} {c d : Connection κ}

structure Ledger [DecidableEq κ] (s : SharedSocket κ) : Prop where
  held : ∀ p c, s.objects.lookup p = some c → s.connections.lookup c.key = some p
  keyed : ∀ k p, s.connections.lookup k = some p → ∃ c, s.objects.lookup p = some c ∧ c.key = k
  pending : ∀ k, k ∈ s.pendingRemoval ↔ ∃ p c, s.objects.lookup p = some c ∧ c.key = k ∧ c.closed = true
  once : s.pendingRemoval.Nodup
  fresh : ∀ p c, s.objects.lookup p = some c → c.serial < s.nextSerial
  unique : ∀ p c q d, s.objects.lookup p = some c → s.objects.lookup q = some d → c.serial = d.serial → p = q
  reported : ∀ n, n ∈ s.reported ↔ n ∈ s.erased ∨ ∃ p c, s.objects.lookup p = some c ∧ c.serial = n ∧ c.closed = true
  reportedOnce : s.reported.Nodup
  erasedOnce : s.erased.Nodup
  gone : ∀ n ∈ s.erased, n < s.nextSerial ∧ ∀ p c, s.objects.lookup p = some c → c.serial ≠ n

/-- The histories are those of the objects: a close is reported once the connection is closed, and a connection
is erased once it is destroyed. -/
def Recorded (s : SharedSocket κ) : Prop := ∀ n,
  (n ∈ s.reported ↔ n ∈ s.erased ∨ ∃ p c, s.objects.lookup p = some c ∧ c.serial = n ∧ c.closed = true) ∧
    (n ∈ s.erased → ∀ p c, s.objects.lookup p = some c → c.serial ≠ n)

theorem lookup_insert_closed : (s.objects.insert p { c with closed := true }).lookup q = some d ↔
      (q = p ∧ d = { c with closed := true }) ∨ (q ≠ p ∧ s.objects.lookup q = some d) := by
  rw [FlatMap.lookup_insert_eq]
  by_cases hq : q = p
  · simp [hq, eq_comm]
  · simp [hq]

theorem exists_insert_closed (hp : s.objects.lookup p = some c) {q : ConnPtr} {d : Connection κ}
    (hq : (s.objects.insert p { c with closed := true }).lookup q = some d) :
    ∃ e, s.objects.lookup q = some e ∧ e.key = d.key ∧ e.serial = d.serial := by
  rcases lookup_insert_closed.1 hq with ⟨rfl, rfl⟩ | ⟨-, hq⟩
  · exact ⟨c, hp, rfl, rfl⟩
  · exact ⟨d, hq, rfl, rfl⟩

theorem closed_insert_closed (hp : s.connected p = some c) {P : Connection κ → Prop}
    (hP : P { c with closed := true } ↔ P c) :
    (∃ q d, (s.objects.insert p { c with closed := true }).lookup q = some d ∧ P d ∧ d.closed = true) ↔
      (∃ q d, s.objects.lookup q = some d ∧ P d ∧ d.closed = true) ∨ P c := by
  obtain ⟨hl, hc⟩ := connected_eq_some.1 hp
  constructor
  · rintro ⟨q, d, hq, hd, hdc⟩
    rcases lookup_insert_closed.1 hq with ⟨-, rfl⟩ | ⟨-, hq⟩
    · exact .inr (hP.1 hd)
    · exact .inl ⟨q, d, hq, hd, hdc⟩
  · rintro (⟨q, d, hq, hd, hdc⟩ | hc')
    · have hne : q ≠ p := by
        rintro rfl
        obtain rfl : d = c := Option.some.inj (hq.symm.trans hl)
        cases hc.symm.trans hdc
      exact ⟨q, d, lookup_insert_closed.2 (.inr ⟨hne, hq⟩), hd, hdc⟩
    · exact ⟨p, _, lookup_insert_closed.2 (.inl ⟨rfl, rfl⟩), hP.2 hc', rfl⟩

variable [DecidableEq κ]

theorem Ledger.recorded (h : Ledger s) : Recorded s := fun n => ⟨h.reported n, fun hn => (h.gone n hn).2⟩

theorem Ledger.not_reported (h : Ledger s) (hp : s.connected p = some c) :
    c.serial ∉ s.reported ∧ c.key ∉ s.pendingRemoval := by
  obtain ⟨hl, hc⟩ := connected_eq_some.1 hp
  constructor
  · intro hr
    rcases (h.reported c.serial).1 hr with he | ⟨q, d, hq, hs, hd⟩
    · exact (h.gone _ he).2 p c hl rfl
    · obtain rfl : q = p := h.unique q d p c hq hl hs
      obtain rfl : d = c := Option.some.inj (hq.symm.trans hl)
      cases hc.symm.trans hd
  · intro hk
    obtain ⟨q, d, hq, hkey, hd⟩ := (h.pending c.key).1 hk
    have hqp : q = p := Option.some.inj ((hkey ▸ h.held q d hq).symm.trans (h.held p c hl))
    obtain rfl : d = c := Option.some.inj ((hqp ▸ hq).symm.trans hl)
    cases hc.symm.trans hd

theorem Ledger.close (h : Ledger s) (hp : s.connected p = some c) :
    Ledger ({ s with objects := s.objects.insert p { c with closed := true } }.removeConnection p c) := by
  obtain ⟨hl, hc⟩ := connected_eq_some.1 hp
  obtain ⟨hserial, hkey⟩ := h.not_reported hp
  constructor
  · intro q d hq
    obtain ⟨e, he, hk, -⟩ := exists_insert_closed hl hq
    exact hk ▸ h.held q e he
  · intro k q hk
    obtain ⟨d, hd, hdk⟩ := h.keyed k q hk
    by_cases hq : q = p
    · obtain rfl : d = c := Option.some.inj ((hq ▸ hd).symm.trans hl)
      exact ⟨_, lookup_insert_closed.2 (.inl ⟨hq, rfl⟩), hdk⟩
    · exact ⟨d, lookup_insert_closed.2 (.inr ⟨hq, hd⟩), hdk⟩
  · intro k
    show k ∈ s.pendingRemoval ++ [c.key] ↔ _
    rw [mem_append, mem_singleton, h.pending k]
    exact (Iff.or Iff.rfl eq_comm).trans (closed_insert_closed hp (P := fun d => d.key = k) Iff.rfl).symm
  · exact nodup_append_comm.1 (nodup_cons.2 ⟨hkey, h.once⟩)
  · intro q d hq
    obtain ⟨e, he, -, hs⟩ := exists_insert_closed hl hq
    exact hs ▸ h.fresh q e he
  · intro q d r e hq hr hs
    obtain ⟨d', hd, -, hds⟩ := exists_insert_closed hl hq
    obtain ⟨e', he, -, hes⟩ := exists_insert_closed hl hr
    exact h.unique q d' r e' hd he (hds.trans (hs.trans hes.symm))
  · intro n
    show n ∈ s.reported ++ [c.serial] ↔ n ∈ s.erased ∨ _
    rw [mem_append, mem_singleton, h.reported n, or_assoc]
    refine Iff.or Iff.rfl ?_
    exact (Iff.or Iff.rfl eq_comm).trans (closed_insert_closed hp (P := fun d => d.serial = n) Iff.rfl).symm
  · exact nodup_append_comm.1 (nodup_cons.2 ⟨hserial, h.reportedOnce⟩)
  · exact h.erasedOnce
  · intro n hn
    refine ⟨(h.gone n hn).1, fun q d hq => ?_⟩
    obtain ⟨e, he, -, hs⟩ := exists_insert_closed hl hq
    exact hs ▸ (h.gone n hn).2 q e he

theorem stable_ledger : Stable (Ledger (κ := κ)) where
  writers _ _ _ _ _ h := { h with }
  close hp h := h.close hp

/-! ## A new connection -/

omit [DecidableEq κ] in
theorem act_connections (s : SharedSocket κ) (m : FlatMap κ ConnPtr) (a : Act) :
    { s with connections := m }.act a = { s.act a with connections := m } := by
  cases a with
  | write p full =>
    simp only [act, connected, write, onWriteBlocked, add_eq, rearmIfLevel_eq]
    split
    · rfl
    · split
      · rfl
      · split <;> rfl
  | close p =>
    simp only [act, connected]
    split <;> rfl

omit [DecidableEq κ] in
theorem acts_connections (m : FlatMap κ ConnPtr) : ∀ (as : List Act) (s : SharedSocket κ),
    { s with connections := m }.acts as = { s.acts as with connections := m }
  | [], _ => rfl
  | a :: as, s => by
    show ({ s with connections := m }.act a).acts as = { (s.act a).acts as with connections := m }
    rw [act_connections, acts_connections m as]

theorem create_eq (s : SharedSocket κ) (p : ConnPtr) (key : κ) (as : List Act) : s.create p key as =
    { s.construct p key with connections := s.connections.emplace key p }.acts as := by
  have h : (s.construct p key).acts as = { (s.construct p key).acts as with connections := s.connections } :=
    acts_connections s.connections as (s.construct p key)
  have hc : ((s.construct p key).acts as).connections = s.connections := by rw [h]
  rw [acts_connections]
  unfold create
  dsimp only
  rw [hc]

theorem Ledger.construct (h : Ledger s) {key : κ} (hp : s.objects.lookup p = none)
    (hk : s.connections.lookup key = none) :
    Ledger { s.construct p key with connections := s.connections.emplace key p } := by
  have hl : ∀ q d, (s.construct p key).objects.lookup q = some d ↔
      (q = p ∧ d = { key, serial := s.nextSerial }) ∨ s.objects.lookup q = some d := by
    intro q d
    simp only [SharedSocket.construct, FlatMap.lookup_insert_eq]
    by_cases hq : q = p
    · subst hq
      simp [hp, eq_comm]
    · simp [hq]
  have hm : ∀ k, (s.connections.emplace key p).lookup k = if k = key then some p else s.connections.lookup k :=
    fun k => FlatMap.lookup_emplace_of_none hk k p
  constructor
  · intro q d hq
    rw [hm]
    rcases (hl q d).1 hq with ⟨rfl, rfl⟩ | hq'
    · exact if_pos rfl
    · have hne : d.key ≠ key := by
        rintro rfl
        cases hk.symm.trans (h.held q d hq')
      rw [if_neg hne]
      exact h.held q d hq'
  · intro k q hq
    rw [hm] at hq
    split at hq
    next hke =>
      cases hq
      exact ⟨_, (hl p _).2 (.inl ⟨rfl, rfl⟩), hke.symm⟩
    · obtain ⟨d, hd, hdk⟩ := h.keyed k q hq
      exact ⟨d, (hl q d).2 (.inr hd), hdk⟩
  · intro k
    refine (h.pending k).trans ⟨?_, ?_⟩
    · rintro ⟨q, d, hq, hd⟩
      exact ⟨q, d, (hl q d).2 (.inr hq), hd⟩
    · rintro ⟨q, d, hq, hdk, hdc⟩
      rcases (hl q d).1 hq with ⟨-, rfl⟩ | hq
      · cases hdc
      · exact ⟨q, d, hq, hdk, hdc⟩
  · exact h.once
  · intro q d hq
    rcases (hl q d).1 hq with ⟨-, rfl⟩ | hq
    · exact Nat.lt_succ_self _
    · exact Nat.lt_succ_of_lt (h.fresh q d hq)
  · intro q d r e hq hr hs
    rcases (hl q d).1 hq with ⟨hqp, rfl⟩ | hq' <;> rcases (hl r e).1 hr with ⟨hrp, rfl⟩ | hr'
    · exact hqp.trans hrp.symm
    · exact absurd hs.symm (ne_of_lt (h.fresh r e hr'))
    · exact absurd hs (ne_of_lt (h.fresh q d hq'))
    · exact h.unique q d r e hq' hr' hs
  · intro n
    refine (h.reported n).trans (Iff.or Iff.rfl ⟨?_, ?_⟩)
    · rintro ⟨q, d, hq, hd⟩
      exact ⟨q, d, (hl q d).2 (.inr hq), hd⟩
    · rintro ⟨q, d, hq, hds, hdc⟩
      rcases (hl q d).1 hq with ⟨-, rfl⟩ | hq
      · cases hdc
      · exact ⟨q, d, hq, hds, hdc⟩
  · exact h.reportedOnce
  · exact h.erasedOnce
  · intro n hn
    obtain ⟨hlt, hg⟩ := h.gone n hn
    refine ⟨Nat.lt_succ_of_lt hlt, fun q d hq => ?_⟩
    rcases (hl q d).1 hq with ⟨-, rfl⟩ | hq
    · exact ne_of_gt hlt
    · exact hg q d hq

theorem Ledger.create (h : Ledger s) {key : κ} (hp : p ∉ s.objects) (hk : key ∉ s.connections) (as : List Act) :
    Ledger (s.create p key as) := by
  rw [create_eq]
  exact stable_ledger.acts as (h.construct (AList.lookup_eq_none.2 hp) (AList.lookup_eq_none.2 hk))

/-! ## Garbage -/

theorem Ledger.collect {k : κ} {ks : List κ} (h : Ledger { s with pendingRemoval := k :: ks }) :
    Ledger { s.collect k with pendingRemoval := ks } := by
  obtain ⟨p, c, hp, rfl, hc⟩ := (h.pending k).1 mem_cons_self
  have hk : s.connections.lookup c.key = some p := h.held p c hp
  have hl : ∀ q d, (s.objects.erase p).lookup q = some d ↔ q ≠ p ∧ s.objects.lookup q = some d := by
    intro q d
    rw [FlatMap.lookup_erase_eq]
    by_cases hq : q = p
    · simp [hq]
    · simp [hq]
  have hm : ∀ j, (s.connections.erase c.key).lookup j = if j = c.key then none else s.connections.lookup j :=
    FlatMap.lookup_erase_eq _ _
  have hother : ∀ q d, q ≠ p → s.objects.lookup q = some d → d.key ≠ c.key := by
    intro q d hne hq he
    exact hne (Option.some.inj ((he ▸ h.held q d hq).symm.trans hk))
  have hnew : c.serial ∉ s.erased := fun he => (h.gone _ he).2 p c hp rfl
  have hcol : s.collect c.key = { s.remove p with
      connections := s.connections.erase c.key, objects := s.objects.erase p, erased := s.erased ++ [c.serial] } := by
    have hp' : s.objects.lookup p = some c := hp
    simp only [SharedSocket.collect, hk, hp']
    rfl
  rw [hcol]
  constructor
  · intro q d hq
    obtain ⟨hne, hq⟩ := (hl q d).1 hq
    rw [hm, if_neg (hother q d hne hq)]
    exact h.held q d hq
  · intro j q hq
    rw [hm] at hq
    split at hq
    · cases hq
    next hj =>
      obtain ⟨d, hd, rfl⟩ := h.keyed j q hq
      refine ⟨d, (hl q d).2 ⟨?_, hd⟩, rfl⟩
      rintro rfl
      obtain rfl : c = d := Option.some.inj (hp.symm.trans hd)
      exact hj rfl
  · intro j
    constructor
    · intro hj
      obtain ⟨q, d, hq, rfl, hd⟩ := (h.pending j).1 (mem_cons_of_mem _ hj)
      refine ⟨q, d, (hl q d).2 ⟨?_, hq⟩, rfl, hd⟩
      rintro rfl
      obtain rfl : c = d := Option.some.inj (hp.symm.trans hq)
      exact (nodup_cons.1 h.once).1 hj
    · rintro ⟨q, d, hq, rfl, hd⟩
      obtain ⟨hne, hq⟩ := (hl q d).1 hq
      rcases mem_cons.1 ((h.pending d.key).2 ⟨q, d, hq, rfl, hd⟩) with he | hj
      · exact absurd he (hother q d hne hq)
      · exact hj
  · exact (nodup_cons.1 h.once).2
  · intro q d hq
    exact h.fresh q d ((hl q d).1 hq).2
  · intro q d r e hq hr
    exact h.unique q d r e ((hl q d).1 hq).2 ((hl r e).1 hr).2
  · intro n
    rw [mem_append, mem_singleton, or_assoc]
    refine (h.reported n).trans (Iff.or Iff.rfl ⟨?_, ?_⟩)
    · rintro ⟨q, d, hq, rfl, hd⟩
      by_cases hne : q = p
      · subst hne
        obtain rfl : c = d := Option.some.inj (hp.symm.trans hq)
        exact .inl rfl
      · exact .inr ⟨q, d, (hl q d).2 ⟨hne, hq⟩, rfl, hd⟩
    · rintro (rfl | ⟨q, d, hq, hd⟩)
      · exact ⟨p, c, hp, rfl, hc⟩
      · exact ⟨q, d, ((hl q d).1 hq).2, hd⟩
  · exact h.reportedOnce
  · exact nodup_append_comm.1 (nodup_cons.2 ⟨hnew, h.erasedOnce⟩)
  · intro n hn
    rcases mem_append.1 hn with hn | hn
    · exact ⟨(h.gone n hn).1, fun q d hq => (h.gone n hn).2 q d ((hl q d).1 hq).2⟩
    · obtain rfl := mem_singleton.1 hn
      refine ⟨h.fresh p c hp, fun q d hq he => ?_⟩
      obtain ⟨hne, hq⟩ := (hl q d).1 hq
      exact hne (h.unique q d p c hq hp he)

theorem Ledger.collects : ∀ (ks : List κ) {s : SharedSocket κ}, Ledger { s with pendingRemoval := ks } →
    Ledger { ks.foldl SharedSocket.collect s with pendingRemoval := [] }
  | [], _, h => h
  | _ :: ks, _, h => Ledger.collects ks h.collect

theorem Ledger.collectGarbage (h : Ledger s) : Ledger s.collectGarbage := Ledger.collects s.pendingRemoval h

theorem reported_collects : ∀ (ks : List κ) (s : SharedSocket κ), (ks.foldl collect s).reported = s.reported
  | [], _ => rfl
  | k :: ks, s => by
    refine (reported_collects ks (s.collect k)).trans ?_
    unfold collect
    split <;> rfl

theorem Ledger.erased_collectGarbage (h : Ledger s) : s.collectGarbage.erased.Perm s.reported := by
  have hg := h.collectGarbage
  have hr : s.collectGarbage.reported = s.reported := reported_collects s.pendingRemoval s
  refine (perm_ext_iff_of_nodup hg.erasedOnce h.reportedOnce).2 fun n => ?_
  rw [← hr, hg.reported n]
  refine ⟨.inl, fun hn => hn.resolve_right ?_⟩
  rintro ⟨p, c, hp, -, hc⟩
  exact absurd ((hg.pending c.key).2 ⟨p, c, hp, rfl, hc⟩) not_mem_nil

/-! ## Runs -/

theorem Ledger.step {e : Ev κ} (h : Ledger s) (hs : s.step e = some t) : Ledger t := by
  cases e with
  | poll mask =>
    simp only [SharedSocket.step, poll] at hs
    split at hs
    · split at hs
      · cases hs
        exact h
      · cases hs
        exact { h with }
    · cases hs
  | onSocketEvent turn =>
    obtain ⟨m, -, rfl⟩ := Option.map_eq_some_iff.1 hs
    exact stable_ledger.onSocketEvent (s := { s with ready := none }) m turn { h with }
  | callback as =>
    cases hs
    exact stable_ledger.acts as h
  | create p key as =>
    obtain ⟨⟨hp, hk, -⟩, ⟨⟩⟩ := Option.ite_none_right_eq_some.1 hs
    exact h.create hp hk as
  | reopen opened =>
    obtain ⟨-, ⟨⟩⟩ := Option.ite_none_right_eq_some.1 hs
    exact { h with }
  | collectGarbage =>
    cases hs
    exact h.collectGarbage

theorem ledger_registered (edgeTriggered : Bool) : Ledger (registered edgeTriggered : SharedSocket κ) := by
  refine ⟨?_, ?_, fun k => ?_, nodup_nil, ?_, ?_, fun n => ?_, nodup_nil, nodup_nil,
    forall_mem_nil _⟩
  · intro p c hp
    cases hp
  · intro k p hk
    cases hk
  · refine ⟨fun hk => absurd hk not_mem_nil, ?_⟩
    rintro ⟨p, c, hp, -⟩
    cases hp
  · intro p c hp
    cases hp
  · intro p c q d hp
    cases hp
  · refine ⟨fun hn => absurd hn not_mem_nil, ?_⟩
    rintro (hn | ⟨p, c, hp, -⟩)
    · exact absurd hn not_mem_nil
    · cases hp

end

end SharedSocket

end Quictun
