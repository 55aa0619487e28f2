import Mathlib.Data.List.Range
import Quictun.TunnelOwner

/-!
# The accepted descriptors of a client connection

`QuictunClientConnection` from the descriptor's side: it waits in `pending_tcps_`, is handed
over inside `StartTunnel()`, belongs to the socket of a tunnel, and is closed. The `k`-th
descriptor that `AssignNewTcp()` gets is `k`, whatever number the kernel gave it.

`opened` and `closes` are logs: which stream was opened for which descriptor, and the
descriptors the connection has closed itself.
-/

namespace Quictun

open List Owner Prod

namespace ClientTunnels

inductive Op
  | maybeOpenStreams
  | openOutgoingStream
  | startTunnel (id fd : Nat)
  | startTunnelAfterWrite (id fd : Nat)
deriving DecidableEq

/-- `opens`: the session has a stream to give. -/
inductive Ev
  | exec (a : Owner.Answer) (opens : Bool)
  | assignNewTcp
  | canOpenStream
  | owner (e : Owner.Ev)
deriving DecidableEq

end ClientTunnels

structure ClientTunnels extends Owner ClientTunnels.Op where
  pendingTcps : List Nat := []
  nextStreamId : Nat := 0
  assigned : Nat := 0
  opened : List (Nat × Nat) := []
  closes : List Nat := []

namespace ClientTunnels

open Stack

def pushOwn (c : ClientTunnels) (ops : List Op) : ClientTunnels := { c with toOwner := c.toOwner.pushOwn ops }

section
variable (c : ClientTunnels)

def assignNewTcp : ClientTunnels :=
  if c.closed then { c with assigned := c.assigned + 1, closes := c.closes ++ [c.assigned] }
  else { c with assigned := c.assigned + 1, pendingTcps := c.pendingTcps ++ [c.assigned] }.pushOwn [.maybeOpenStreams]

def maybeOpenStreams : ClientTunnels :=
  if c.closed || c.pendingTcps.isEmpty then c else c.pushOwn [.openOutgoingStream]

def handOut (fd : Nat) (tail : List Nat) : ClientTunnels :=
  { c with
    pendingTcps := tail
    nextStreamId := c.nextStreamId + 4
    opened := c.opened ++ [(c.nextStreamId, fd)] }.pushOwn [.startTunnel c.nextStreamId fd, .maybeOpenStreams]

def openOutgoingStream (a : Owner.Answer) (opens : Bool) : ClientTunnels :=
  match c.pendingTcps, opens with
  | fd :: rest, true => c.handOut fd rest
  | _, _ => { c with toOwner := c.toOwner.afterWrite a }

def startTunnel (a : Owner.Answer) (id fd : Nat) : ClientTunnels :=
  { c with toOwner := (c.toOwner.pushOwn [.startTunnelAfterWrite id fd]).afterWrite a }

def startTunnelAfterWrite (id fd : Nat) : ClientTunnels :=
  if c.closed then { c with closes := c.closes ++ [fd] }
  else { c with toOwner := (c.toOwner.addEntry { id := id, socket := .connected fd }).push [.run id] }

def clear (c : ClientTunnels) : ClientTunnels :=
  { c with toOwner := c.toOwner.clear, closes := c.closes ++ c.pendingTcps, pendingTcps := [] }

def exec (c : ClientTunnels) (a : Owner.Answer) (opens : Bool) : Op ⊕ Owner.Op → ClientTunnels
  | .inl .maybeOpenStreams => c.maybeOpenStreams
  | .inl .openOutgoingStream => c.openOutgoingStream a opens
  | .inl (.startTunnel id fd) => c.startTunnel a id fd
  | .inl (.startTunnelAfterWrite id fd) => c.startTunnelAfterWrite id fd
  | .inr .clear => c.clear
  | .inr op => { c with toOwner := c.toOwner.exec a op }

def deliver (c : ClientTunnels) : Ev → Option ClientTunnels
  | .exec _ _ => none
  | .assignNewTcp => some c.assignNewTcp
  | .canOpenStream => some (c.pushOwn [.maybeOpenStreams])
  | .owner e => (c.toOwner.deliver e).map fun o => { c with toOwner := o }

def step : Ev → Option ClientTunnels
  | .exec a opens =>
    match c.todo with
    | [] => none
    | op :: rest => some ({ c with todo := rest }.exec a opens op)
  | e => if c.todo = [] then c.deliver e else none

def init : ClientTunnels := {}

/-! ## Where a descriptor is -/

def Op.handOver : Op → Option (Nat × Nat)
  | .startTunnel id fd | .startTunnelAfterWrite id fd => some (id, fd)
  | _ => none

def handOvers : List (Nat × Nat) := c.own.filterMap Op.handOver

def closedFds : List Nat := c.closes ++ c.disconnects.filterMap Owner.Entry.descriptor

def places : List Nat :=
  c.pendingTcps ++ c.handOvers.map snd ++ c.entries.filterMap Owner.Entry.descriptor ++
    c.closedEntries.filterMap Owner.Entry.descriptor ++ c.closedFds

structure Accounted (c : ClientTunnels) : Prop where
  once : ∀ fd < c.assigned, c.places.count fd = 1
  unused : ∀ fd ∈ c.closedFds, ∀ t ∈ c.entries ++ c.closedEntries, (t.id, fd) ∈ c.opened → t.tunnelClosed = true
  order : (c.opened.map snd ++ c.pendingTcps).Pairwise (· < ·) ∧ (c.opened.map fst).Pairwise (· < ·)
  drained : c.closed = true → c.todo = [] → ∀ fd < c.assigned, c.closedFds.count fd = 1

def creditsSent : Ev → Prop
  | .exec a _ => c.stopReadingFails a = false
  | _ => True

end

/-! ## The invariant -/

section
variable {ω : Type} {o o' : Owner ω}

def holdings (o : Owner ω) (fd : Nat) : Nat :=
  (o.entries.filterMap Owner.Entry.descriptor).count fd + (o.closedEntries.filterMap Owner.Entry.descriptor).count fd +
    (o.disconnects.filterMap Owner.Entry.descriptor).count fd

theorem holdings_of_frame (h : o.Core) (f : Owner.Frame o o') (fd : Nat) : holdings o' fd = holdings o fd := by
  unfold holdings
  cases f.change with
  | same he hc hd => rw [he, hc, hd]
  | begun t ht he hc hd =>
    have hp := ((perm_cons_erase ht).filterMap Owner.Entry.descriptor).count_eq fd
    rw [he, hc, hd, hp]
    rfl
  | finished t ht he hc hd =>
    have hp := ((perm_cons_erase ht).filterMap Owner.Entry.descriptor).count_eq fd
    have hr := h.ready t ht
    have hf : t.finished.descriptor = none := by
      unfold Owner.Entry.finished Owner.Entry.descriptor
      cases t.socket <;> rfl
    rw [he, hc, hd, hp, filterMap_append, filterMap_append, count_append, count_append]
    rw [filterMap_cons_none hf, filterMap_nil, count_nil]
    cases htd : t.tunnelDisconnected with
    | true =>
      have hn : t.descriptor = none := by rw [Owner.Entry.descriptor, hr.failed htd]; rfl
      rw [filterMap_cons_none hn]
      simp
    | false =>
      obtain ⟨k, hk⟩ : ∃ k, t.descriptor = some k := Option.isSome_iff_exists.1 (hr.connected htd)
      rw [filterMap_cons_some hk]
      simp [count_cons, hk]
      omega

theorem socket_of_frame (f : Owner.Frame o o') {t : Owner.Entry} (ht : t ∈ o'.entries) :
    ∃ s ∈ o.entries, s.id = t.id ∧ s.socket = t.socket ∧ s.tunnelDisconnected = t.tunnelDisconnected := by
  cases f.change with
  | same he _ _ => exact ⟨t, he ▸ ht, rfl, rfl, rfl⟩
  | begun s hs he _ _ =>
    rw [he] at ht
    rcases mem_cons.1 ht with rfl | ht
    · exact ⟨s, hs, rfl, rfl, rfl⟩
    · exact ⟨t, mem_of_mem_erase ht, rfl, rfl, rfl⟩
  | finished s hs he _ _ =>
    rw [he] at ht
    exact ⟨t, mem_of_mem_erase ht, rfl, rfl, rfl⟩

end

structure Books (c : ClientTunnels) : Prop where
  once : ∀ fd, c.places.count fd = if fd < c.assigned then 1 else 0
  order : (c.opened.map snd ++ c.pendingTcps).Pairwise (· < ·)
  below : ∀ fd ∈ c.opened.map snd ++ c.pendingTcps, fd < c.assigned
  ids : (c.opened.map fst).Pairwise (· < ·)
  idsBelow : ∀ id ∈ c.opened.map fst, id < c.nextStreamId
  fresh : (c.admitted ++ c.handOvers.map fst).Nodup
  known : ∀ id ∈ c.admitted, id ∈ c.opened.map fst
  handed : ∀ p ∈ c.handOvers, p ∈ c.opened
  sockets : ∀ t ∈ c.entries, t.tunnelDisconnected = false ∧ ∃ fd, t.socket = .connected fd ∧ (t.id, fd) ∈ c.opened

structure Inv (c : ClientTunnels) : Prop extends Books c where
  owner : c.toOwner.Inv
  drained : c.closed = true → c.pendingTcps = [] ∨ has Owner.clears c.todo = true

section
variable {c : ClientTunnels} {a : Owner.Answer} {id fd : Nat} {rest : List (Op ⊕ Owner.Op)}

theorem count_places (c : ClientTunnels) (fd : Nat) : c.places.count fd =
    c.pendingTcps.count fd + (c.handOvers.map snd).count fd + holdings c.toOwner fd + c.closes.count fd := by
  simp only [places, closedFds, count_append, holdings]
  omega

theorem Books.frame {o' : Owner Op} (h : Books c) (hc : c.toOwner.Core) (f : Owner.Frame c.toOwner o') :
    Books { c with toOwner := o' } := by
  have hh : handOvers { c with toOwner := o' } = c.handOvers := congrArg (filterMap Op.handOver) f.own_eq
  refine { h with once := fun fd => ?_, fresh := ?_, known := fun id hi => ?_, handed := ?_, sockets := fun t ht => ?_ }
  · rw [← h.once fd, count_places, count_places, hh]
    rw [holdings_of_frame hc f]
  · rw [hh]
    rw [f.admitted]
    exact h.fresh
  · exact h.known id (f.admitted ▸ hi)
  · rw [hh]
    exact h.handed
  · obtain ⟨s, hs, hid, hsock, hd⟩ := socket_of_frame f ht
    rw [← hid, ← hsock, ← hd]
    exact h.sockets s hs

theorem Books.restack {todo : List (Op ⊕ Owner.Op)} (h : Books c)
    (hh : handOvers { c with todo := todo } = c.handOvers) :
    Books { c with todo := todo } :=
  { h with
    once := fun fd => by rw [← h.once fd, count_places, count_places, hh]; rfl
    fresh := by rw [hh]; exact h.fresh
    handed := by rw [hh]; exact h.handed }

theorem handOvers_pushOwn (c : ClientTunnels) (ops : List Op) :
    (c.pushOwn ops).handOvers = ops.filterMap Op.handOver ++ c.handOvers := by
  have hl : (ops.map (Sum.inl : Op → Op ⊕ Owner.Op)).filterMap Sum.getLeft? = ops := by
    rw [filterMap_map]
    exact filterMap_some
  unfold handOvers Owner.own ClientTunnels.pushOwn Owner.pushOwn
  rw [filterMap_append, filterMap_append, hl]

/-! ## The blocks -/

theorem drained_of_frame {o o' : Owner Op} {P : Prop} (hf : Owner.Frame o o')
    (hd : o.closed = true → P ∨ has Owner.clears o.todo = true) (hc : o'.closed = true) :
    P ∨ has Owner.clears o'.todo = true :=
  (hf.closed hc).elim (fun hc => (hd hc).imp_right hf.clears_of) .inr

variable {op : Owner.Op}

theorem Inv.shared (h : Inv c) (ht : c.todo = .inr op :: rest) (hs : c.stopReadingFails a = false) :
    let o := Owner.exec (c.toOwner.pop rest) a op
    o.Inv ∧ Books { c with toOwner := o } ∧ Owner.Frame (c.toOwner.pop rest) o := by
  have hcore : Owner.Core (c.toOwner.pop rest) := { h.owner.toCore with }
  have hf : Owner.Frame (c.toOwner.pop rest) (Owner.exec (c.toOwner.pop rest) a op) :=
    frame_exec hcore a op fun he => h.owner.entries_of_clear (he ▸ ht)
  have hb : Books { c with todo := rest } := h.toBooks.restack (by
    unfold handOvers own
    rw [ht]
    rfl)
  exact ⟨h.owner.exec ht hs, hb.frame hcore hf, hf⟩

theorem Books.closePending (h : Books c) : Books { c with closes := c.closes ++ c.pendingTcps, pendingTcps := [] } := by
  have hsub : (c.opened.map snd ++ []).Sublist (c.opened.map snd ++ c.pendingTcps) :=
    List.Sublist.append_left (nil_sublist _) _
  refine { h with
    once := fun fd => ?_, order := h.order.sublist hsub, below := fun fd hm => h.below fd (hsub.subset hm) }
  refine Eq.trans ?_ (h.once fd)
  rw [count_places, count_places]
  show 0 + (c.handOvers.map snd).count fd + holdings c.toOwner fd + (c.closes ++ c.pendingTcps).count fd = _
  rw [count_append]
  omega

theorem Inv.clear (h : Inv c) (ht : c.todo = .inr .clear :: rest) : Inv ({ c with todo := rest }.clear) := by
  obtain ⟨ho, hb, -⟩ := h.shared (a := {}) ht (by rw [stopReadingFails, ht])
  exact { hb.closePending with owner := ho, drained := fun _ => .inl rfl }

theorem Inv.execShared (h : Inv c) (ht : c.todo = .inr op :: rest) (hs : c.stopReadingFails a = false)
    (hop : op ≠ .clear) : Inv { c with toOwner := Owner.exec (c.toOwner.pop rest) a op } := by
  obtain ⟨ho, hb, hf⟩ := h.shared ht hs
  refine { hb with owner := ho, drained := drained_of_frame hf fun hc => (h.drained hc).imp_right fun hcl => ?_ }
  have hn : clears (.inr op : Op ⊕ Owner.Op) = false := by
    cases op <;> first | rfl | exact absurd rfl hop
  rwa [ht, has_cons, hn, Bool.false_or] at hcl

variable {w : Op}

theorem Inv.popOwn (h : Inv c) (ht : c.todo = .inl w :: rest) : Owner.Popped (fun _ => False) (c.toOwner.pop rest) :=
  h.owner.popQuiet ht fun _ => rfl

theorem Inv.drained_tail (h : Inv c) (ht : c.todo = .inl w :: rest) (hc : c.closed = true) :
    c.pendingTcps = [] ∨ has Owner.clears rest = true := by
  have hd := h.drained hc
  rwa [ht, has_cons, show clears (.inl w : Op ⊕ Owner.Op) = false from rfl, Bool.false_or] at hd

theorem Books.popOwn (h : Books c) (ht : c.todo = .inl w :: rest) (hw : w.handOver = none) :
    Books { c with todo := rest } := h.restack (by
  unfold handOvers Owner.own
  rw [ht]
  simp [hw])

theorem Inv.maybeOpenStreams (h : Inv c) (ht : c.todo = .inl .maybeOpenStreams :: rest) :
    Inv ({ c with todo := rest }.maybeOpenStreams) := by
  have hp := h.popOwn ht
  have hb : Books { c with todo := rest } := h.toBooks.popOwn ht rfl
  unfold ClientTunnels.maybeOpenStreams
  split
  · exact { hb with owner := hp.whole, drained := h.drained_tail ht }
  · have hd := h.drained_tail ht
    exact { hb.restack (handOvers_pushOwn _ [.openOutgoingStream]) with owner := (hp.pushOwn _).whole, drained := hd }

theorem Books.handOut {tail : List Nat} (h : Books c) (hp : c.pendingTcps = fd :: tail) :
    Books (c.handOut fd tail) := by
  have hh : (c.handOut fd tail).handOvers = (c.nextStreamId, fd) :: c.handOvers := handOvers_pushOwn _ _
  have ho : (c.handOut fd tail).opened = c.opened ++ [(c.nextStreamId, fd)] := rfl
  have hfd : (c.handOut fd tail).opened.map snd ++ tail = c.opened.map snd ++ c.pendingTcps := by
    rw [ho, map_append, hp, append_assoc]
    rfl
  have hids : (c.handOut fd tail).opened.map fst = c.opened.map fst ++ [c.nextStreamId] := map_append
  have hnew : c.nextStreamId ∉ c.opened.map fst := fun hm => lt_irrefl _ (h.idsBelow _ hm)
  have hsub : ∀ p ∈ c.opened, p ∈ (c.handOut fd tail).opened := fun p hm => mem_append_left _ hm
  refine ⟨fun k => ?_, hfd ▸ h.order, fun k hk => h.below k (hfd ▸ hk), ?_, fun id hi => ?_, ?_, fun id hi => ?_,
    fun p hm => ?_, fun t ht => ?_⟩
  · refine Eq.trans ?_ (h.once k)
    rw [count_places, count_places, hh, hp]
    show tail.count k + (fd :: c.handOvers.map snd).count k + holdings c.toOwner k + c.closes.count k = _
    rw [count_cons, count_cons]
    omega
  · rw [hids]
    refine pairwise_append.2 ⟨h.ids, pairwise_singleton _ _, fun i hi j hj => ?_⟩
    rw [mem_singleton.1 hj]
    exact h.idsBelow i hi
  · rw [hids] at hi
    rcases mem_append.1 hi with hi | hi
    · exact lt_of_lt_of_le (h.idsBelow id hi) (Nat.le_add_right _ _)
    · rw [mem_singleton.1 hi]
      exact Nat.lt_add_of_pos_right (by decide)
  · -- the new id is above all that have been given out
    rw [hh]
    refine nodup_middle.2 (nodup_cons.2 ⟨fun hm => hnew ?_, h.fresh⟩)
    rcases mem_append.1 hm with hm | hm
    · exact h.known _ hm
    · obtain ⟨p, hp', he⟩ := mem_map.1 hm
      exact mem_map.2 ⟨p, h.handed p hp', he⟩
  · rw [hids]
    exact mem_append_left _ (h.known id hi)
  · rw [hh] at hm
    rcases mem_cons.1 hm with rfl | hm
    · exact mem_append_right _ (mem_singleton.2 rfl)
    · exact hsub p (h.handed p hm)
  · obtain ⟨hd, k, hk, hm⟩ := h.sockets t ht
    exact ⟨hd, k, hk, hsub _ hm⟩

theorem Inv.openOutgoingStream {opens : Bool} (h : Inv c) (ht : c.todo = .inl .openOutgoingStream :: rest) :
    Inv ({ c with todo := rest }.openOutgoingStream a opens) := by
  have hp := h.popOwn ht
  have hb : Books { c with todo := rest } := h.toBooks.popOwn ht rfl
  unfold ClientTunnels.openOutgoingStream
  split
  next fd tail hpend =>
    have hb' : Books ({ c with todo := rest }.handOut fd tail) := hb.handOut hpend
    refine { hb' with owner := (hp.pushOwn _).whole, drained := fun hc => ?_ }
    exact (h.drained_tail ht hc).imp_left fun he => by rw [he] at hpend; cases hpend
  · have hf := frame_afterWrite (c.toOwner.pop rest) a
    exact { hb.frame hp.toCore hf with
      owner := (hp.afterWrite a).whole
      drained := drained_of_frame hf (h.drained_tail ht) }

theorem Inv.startTunnel (h : Inv c) (ht : c.todo = .inl (.startTunnel id fd) :: rest) :
    Inv ({ c with todo := rest }.startTunnel a id fd) := by
  have hp := (h.popOwn ht).pushOwn [.startTunnelAfterWrite id fd]
  have hb : Books ({ c with todo := rest }.pushOwn [.startTunnelAfterWrite id fd]) := h.toBooks.restack (by
    unfold handOvers Owner.own
    rw [ht]
    rfl)
  have hf := Owner.frame_afterWrite (Owner.pushOwn (c.toOwner.pop rest) [.startTunnelAfterWrite id fd]) a
  have hd := h.drained_tail ht
  exact { hb.frame hp.toCore hf with owner := (hp.afterWrite a).whole, drained := drained_of_frame hf hd }

theorem handOvers_cons (ht : c.todo = .inl (.startTunnelAfterWrite id fd) :: rest) :
    c.handOvers = (id, fd) :: handOvers { c with todo := rest } := by
  unfold handOvers own
  rw [ht]
  rfl

theorem Books.abandon (h : Books c) (ht : c.todo = .inl (.startTunnelAfterWrite id fd) :: rest) :
    Books { c with todo := rest, closes := c.closes ++ [fd] } := by
  have hh := handOvers_cons ht
  refine { h with once := fun k => ?_, fresh := ?_, handed := fun p hm => ?_ }
  · refine Eq.trans ?_ (h.once k)
    rw [count_places, count_places, hh]
    show c.pendingTcps.count k + ((handOvers { c with todo := rest }).map snd).count k + holdings c.toOwner k +
      (c.closes ++ [fd]).count k = _
    simp only [count_append, map_cons, count_cons, count_nil]
    omega
  · have hf := h.fresh
    rw [hh] at hf
    exact hf.sublist (List.Sublist.append_left (sublist_cons_self _ _) _)
  · exact h.handed p (hh ▸ mem_cons_of_mem _ hm)

theorem Books.addEntry (h : Books c) (ht : c.todo = .inl (.startTunnelAfterWrite id fd) :: rest) :
    Books { c with toOwner := Owner.addEntry (c.toOwner.pop rest) { id := id, socket := .connected fd } } := by
  have hh := handOvers_cons ht
  have hmem : (id, fd) ∈ c.opened := h.handed _ (hh ▸ mem_cons_self)
  refine { h with
    once := fun k => ?_, fresh := ?_, known := fun i hi => ?_, handed := fun p hm => ?_, sockets := fun t hm => ?_ }
  · refine Eq.trans ?_ (h.once k)
    rw [count_places, count_places, hh]
    show c.pendingTcps.count k + ((handOvers { c with todo := rest }).map snd).count k +
      ((fd :: c.entries.filterMap Owner.Entry.descriptor).count k +
        (c.closedEntries.filterMap Owner.Entry.descriptor).count k +
          (c.disconnects.filterMap Owner.Entry.descriptor).count k) +
      c.closes.count k = _
    simp only [map_cons, count_cons, holdings]
    omega
  · have hf := h.fresh
    rw [hh, map_cons] at hf
    show ((c.admitted ++ [id]) ++ (handOvers { c with todo := rest }).map fst).Nodup
    rwa [append_assoc]
  · rcases mem_append.1 hi with hi | hi
    · exact h.known i hi
    · exact mem_map.2 ⟨(id, fd), hmem, (mem_singleton.1 hi).symm⟩
  · exact h.handed p (hh ▸ mem_cons_of_mem _ hm)
  · rcases mem_cons.1 hm with rfl | hm
    · exact ⟨rfl, fd, rfl, hmem⟩
    · exact h.sockets t hm

theorem Inv.startTunnelAfterWrite (h : Inv c) (ht : c.todo = .inl (.startTunnelAfterWrite id fd) :: rest) :
    Inv ({ c with todo := rest }.startTunnelAfterWrite id fd) := by
  have hp := h.popOwn ht
  unfold ClientTunnels.startTunnelAfterWrite
  split
  next hc =>
    exact { h.toBooks.abandon ht with
      owner := hp.whole
      drained := fun _ => h.drained_tail ht hc }
  next hc =>
    have hc : c.closed = false := by simpa using hc
    have hfresh : id ∉ c.admitted := by
      have hf := h.fresh
      rw [handOvers_cons ht, map_cons, nodup_middle, nodup_cons] at hf
      exact fun hm => hf.1 (mem_append_left _ hm)
    have ha : Owner.Popped (fun _ => False)
        (addEntry (c.toOwner.pop rest) { id := id, socket := .connected fd }) :=
      hp.addEntry hc ⟨rfl, fun _ => rfl, nofun⟩ rfl hfresh
    have ho : Owner.Popped (fun _ => False) _ := ha.pushRun mem_cons_self
    have hb := (h.toBooks.addEntry ht).frame ha.toCore (frame_push _ [.run id])
    exact { hb with owner := ho.whole, drained := fun hcl => by cases hc.symm.trans hcl }

/-! ## Runs -/

theorem Inv.exec {b : Op ⊕ Owner.Op} {opens : Bool} (h : Inv c) (ht : c.todo = b :: rest)
    (hs : c.stopReadingFails a = false) : Inv ({ c with todo := rest }.exec a opens b) := by
  cases b with
  | inl w =>
    cases w with
    | maybeOpenStreams => exact h.maybeOpenStreams ht
    | openOutgoingStream => exact h.openOutgoingStream ht
    | startTunnel id fd => exact h.startTunnel ht
    | startTunnelAfterWrite id fd => exact h.startTunnelAfterWrite ht
  | inr op =>
    by_cases hop : op = .clear
    · subst hop
      exact h.clear ht
    · have he : { c with todo := rest }.exec a opens (.inr op) =
          { c with toOwner := Owner.exec (c.toOwner.pop rest) a op } := by
        cases op <;> first | rfl | exact absurd rfl hop
      rw [he]
      exact h.execShared ht hs hop

theorem Inv.assignNewTcp (h : Inv c) (ht : c.todo = []) : Inv c.assignNewTcp := by
  have hnew : ∀ fd ∈ c.opened.map snd ++ c.pendingTcps, fd < c.assigned + 1 := fun fd hm =>
    Nat.lt_succ_of_lt (h.below fd hm)
  have hcount : ∀ k, (if k < c.assigned then 1 else 0) + [c.assigned].count k = if k < c.assigned + 1 then 1 else 0 :=
    fun k => by
      simp only [count_singleton, beq_iff_eq]
      split <;> split <;> split <;> omega
  unfold ClientTunnels.assignNewTcp
  split
  · refine { h with once := fun k => ?_, below := hnew }
    rw [← hcount, ← h.once k, count_places, count_places]
    rw [count_append, ← Nat.add_assoc]
    rfl
  next hc =>
    have hc : c.closed = false := by simpa using hc
    have hb : Books { c with assigned := c.assigned + 1, pendingTcps := c.pendingTcps ++ [c.assigned] } := by
      refine { h with once := fun k => ?_, order := ?_, below := fun k hk => ?_ }
      · rw [← hcount, ← h.once k, count_places, count_places]
        rw [count_append]
        show _ + _ + (c.handOvers.map snd).count k + holdings c.toOwner k + c.closes.count k = _
        omega
      · rw [← append_assoc]
        refine pairwise_append.2 ⟨h.order, pairwise_singleton _ _, fun i hi j hj => ?_⟩
        rw [mem_singleton.1 hj]
        exact h.below i hi
      · rw [← append_assoc] at hk
        rcases mem_append.1 hk with hk | hk
        · exact hnew k hk
        · rw [mem_singleton.1 hk]
          exact Nat.lt_succ_self _
    have hp : Owner.Popped (fun _ => False) c.toOwner := h.owner.idle ht
    refine { hb.restack (handOvers_pushOwn _ [.maybeOpenStreams]) with
      owner := (hp.pushOwn _).whole, drained := fun hcl => ?_ }
    cases hc.symm.trans hcl

theorem Inv.collect (h : Inv c) : Books { c with closedEntries := [], garbageAlarm := false } := by
  have hn : c.closedEntries.filterMap Owner.Entry.descriptor = [] :=
    filterMap_eq_nil_iff.2 fun t ht => h.owner.descriptor_closed ht
  refine { h.toBooks with once := fun k => ?_ }
  refine Eq.trans ?_ (h.once k)
  rw [count_places, count_places]
  unfold holdings
  rw [hn]
  rfl

theorem Inv.deliver {c' : ClientTunnels} {e : Ev} (h : Inv c) (ht : c.todo = []) (he : c.deliver e = some c') :
    Inv c' := by
  have hp : Owner.Popped (fun _ => False) c.toOwner := h.owner.idle ht
  have hnil : has clears c.todo = true → False := fun hc => by rw [ht] at hc; cases hc
  cases e with
  | exec a opens => cases he
  | assignNewTcp =>
    cases he
    exact h.assignNewTcp ht
  | canOpenStream =>
    cases he
    exact { h.toBooks.restack (handOvers_pushOwn c [.maybeOpenStreams]) with
      owner := (hp.pushOwn _).whole
      drained := fun hc => (h.drained hc).imp_right fun hcl => (hnil hcl).elim }
  | owner e =>
    obtain ⟨o, ho, rfl⟩ := Option.map_eq_some_iff.1 he
    have hi := h.owner.deliver ht ho
    by_cases hg : e = .collectStreamGarbage
    · subst hg
      obtain ⟨-, ⟨⟩⟩ := Option.ite_none_right_eq_some.1 ho
      exact { h.collect with owner := hi, drained := h.drained }
    · have hf := frame_deliver ho hg
      exact { h.toBooks.frame h.owner.toCore hf with owner := hi, drained := drained_of_frame hf h.drained }

theorem Inv.step {c' : ClientTunnels} {e : Ev} (h : Inv c) (hs : c.creditsSent e) (he : c.step e = some c') :
    Inv c' := by
  unfold ClientTunnels.step at he
  split at he
  next a opens =>
    split at he
    · cases he
    next op rest ht => exact Option.some.inj he ▸ h.exec ht hs
  · split at he
    next ht => exact h.deliver ht he
    · cases he

theorem init_inv : Inv init where
  once fd := by simp [init, places, closedFds, handOvers, Owner.own]
  order := .nil
  below := forall_mem_nil _
  ids := .nil
  idsBelow := forall_mem_nil _
  fresh := .nil
  known := forall_mem_nil _
  handed := forall_mem_nil _
  sockets := forall_mem_nil _
  owner := Owner.inv_init
  drained := nofun

theorem run_inv {es : List Ev} (ha : Lts.AllSteps step creditsSent init es) (hr : Lts.run step init es = some c) :
    Inv c :=
  Lts.run_inv_of (fun _ _ _ h hs he => h.step hs he) init_inv ha hr

theorem Books.fd_eq (h : Books c) {k k' : Nat} (hk : (id, k) ∈ c.opened) (hk' : (id, k') ∈ c.opened) : k = k' := by
  have hn : (c.opened.map fst).Nodup := h.ids.imp ne_of_lt
  exact congrArg snd (inj_on_of_nodup_map hn hk hk' rfl)

theorem Books.not_closed {t : Owner.Entry} (h : Books c) (ht : t ∈ c.entries) (hd : t.descriptor = some fd) :
    fd ∉ c.closedFds := by
  intro hm
  have hle := h.once fd
  have h1 : 0 < (c.entries.filterMap Owner.Entry.descriptor).count fd :=
    count_pos_iff.2 (mem_filterMap.2 ⟨t, ht, hd⟩)
  have h2 : 0 < c.closedFds.count fd := count_pos_iff.2 hm
  simp only [places, count_append] at hle
  split at hle <;> omega

theorem Inv.accounted (h : Inv c) : Accounted c where
  once fd hfd := by rw [h.once, if_pos hfd]
  unused fd hfd t ht ho := by
    by_contra hn
    rw [Bool.not_eq_true] at hn
    rcases mem_append.1 ht with ht | ht
    · obtain ⟨-, k, hk, hm⟩ := h.sockets t ht
      have hd : t.descriptor = some k := by rw [Owner.Entry.descriptor, hk]; rfl
      exact h.not_closed ht hd (h.fd_eq ho hm ▸ hfd)
    · cases (h.owner.ended t (h.owner.kept ht)).1.symm.trans hn
  order := ⟨h.order, h.ids⟩
  drained hc ht fd hfd := by
    -- nothing waits, nothing is handed over, and the entries that are left hold no descriptor
    have hpend : c.pendingTcps = [] := (h.drained hc).resolve_right fun hn => by rw [ht] at hn; cases hn
    have hhand : c.handOvers = [] := by rw [handOvers, own, ht]; rfl
    have hent : c.entries = [] := h.owner.entries_of_closed ht hc
    have hcl : c.closedEntries.filterMap Owner.Entry.descriptor = [] :=
      filterMap_eq_nil_iff.2 fun t hm => h.owner.descriptor_closed hm
    have h1 := h.once fd
    rw [if_pos hfd, places, hpend, hhand, hent, hcl] at h1
    simpa using h1

end

/-! ## The descriptors of a run -/

/-- **Descriptors are neither leaked nor closed twice**, as long as no write fails inside the `StopReading()` of a
tunnel that closes. -/
theorem descriptors_accounted {c : ClientTunnels} {es : List Ev} (ha : Lts.AllSteps step creditsSent init es)
    (hr : Lts.run step init es = some c) : c.Accounted := (run_inv ha hr).accounted

instance (c : ClientTunnels) : ∀ e, Decidable (c.creditsSent e)
  | .exec a _ => inferInstanceAs (Decidable (c.stopReadingFails a = false))
  | .assignNewTcp | .canOpenStream | .owner _ => isTrue trivial

def quiet (n : Nat) : List Ev := replicate n (.exec {} false)

def accept (a : Owner.Answer) : List Ev := [.assignNewTcp, .exec {} false, .exec {} true, .exec a false]

def closedInPreamble : List Ev := accept {} ++ quiet 3 ++ accept { writeFails := true, gone := [0] } ++ quiet 9

theorem descriptors_accounted_closedInPreamble : ∃ c, Lts.run step init closedInPreamble = some c ∧ c.closed = true ∧
    c.todo = [] ∧ c.assigned = 2 ∧ c.closedFds = [1, 0] ∧ c.Accounted :=
  ⟨_, rfl, rfl, rfl, rfl, rfl, @descriptors_accounted _ closedInPreamble (Lts.allSteps_of_check (by decide)) rfl⟩

/-- A tunnel closes with data of its stream unread. The window update for it fails, the connection closes, and
`Close()` skips the tunnel, which is closed already. -/
def creditLost : List Ev :=
  accept {} ++ quiet 3 ++ [.owner (.tunnelEvent 0), .exec { closes := some true } false,
    .exec { writeFails := true, gone := [0] } false] ++ quiet 5

/-- The map is cleared under the tunnel's own `Close()`, and the descriptor is nowhere. -/
theorem descriptor_lost_in_stopReading : ∃ c, Lts.run step init creditLost = some c ∧
    c.todo = [.inr (.closeAfterStopReading 0 true), .inr (.run 0)] ∧ c.entries = [] ∧ c.closedEntries = [] ∧
    c.assigned = 1 ∧ c.places = [] ∧ ¬ c.Accounted := by
  refine ⟨_, rfl, rfl, rfl, rfl, rfl, rfl, fun h => ?_⟩
  exact Nat.zero_ne_one (h.once 0 Nat.one_pos)

end ClientTunnels

end Quictun
