import Quictun.ClientRouting
import Quictun.SharedSocket

/-!
# The shared UDP sockets of the client driver

Connections borrow the writer of the socket they are pinned to, and the sockets' lists of
blocked writers borrow the connections. A socket is reopened, which replaces its writer,
only when no connection is held on it, and `RemoveConnection()` takes a connection off its
list before `CollectGarbage()` destroys it. Of each socket, `SharedSocket` models the
list and the writer in more detail (`stable_shares`).
-/

namespace Quictun

open Option List

def Client.HeldConnection.pin (h : Client.HeldConnection) : Nat × Option Nat × Nat :=
  (h.connection.serial, h.connection.writer, h.socketIndex)

open Client

namespace QuictunClientDriver

structure SocketsSound (d : QuictunClientDriver) : Prop where
  writer : ∀ p h, d.connections.lookup p = some h →
    ∃ w, h.connection.writer = some w ∧ (d.udpSockets h.socketIndex).writer = some w
  /-- Reopening a socket leaves the writers in use alone. -/
  kept : ∀ i r p h, d.connections.lookup p = some h →
    ((d.reopenIfIdle i r).1.udpSockets h.socketIndex).writer = (d.udpSockets h.socketIndex).writer
  slot : ∀ j w p h, d.poolSlots[j]? = some (some w) → d.lock w = some (p, h) → h.socketIndex = j % d.udpSocketCount
  removed : ∀ p ∈ d.pendingRemoval, ∀ i, p ∉ (d.udpSockets i).writeBlockedList
  own : ∀ i, ∀ p ∈ (d.udpSockets i).writeBlockedList, ∃ h, d.connections.lookup p = some h ∧ h.socketIndex = i
  /-- What is left registered after a failure belongs to the other sockets. -/
  failed : ∀ i r, (d.openUdpSocket i r).2 = false →
    ((d.openUdpSocket i r).1.udpSockets i).fd = none ∧ ((d.openUdpSocket i r).1.udpSockets i).writer = none ∧
      (∀ fd, (d.udpSockets i).fd = some fd → fd ∉ (d.openUdpSocket i r).1.registered) ∧
      ∀ fd ∈ (d.openUdpSocket i r).1.registered, ∃ j, j ≠ i ∧ (d.udpSockets j).fd = some fd

structure Pins (d : QuictunClientDriver) : Prop where
  writer : ∀ p h, d.connections.lookup p = some h →
    ∃ w, h.connection.writer = some w ∧ (d.udpSockets h.socketIndex).writer = some w
  serial : ∀ p h, d.connections.lookup p = some h → h.connection.serial < d.nextSerial
  unique : ∀ p h q k, d.connections.lookup p = some h → d.connections.lookup q = some k →
    h.connection.serial = k.connection.serial → p = q
  slotSerial : ∀ (j : Nat) (w : WeakPtr), d.poolSlots[j]? = some (some w) → w.serial < d.nextSerial
  slot : ∀ j w p h, d.poolSlots[j]? = some (some w) → d.connections.lookup p = some h →
    h.connection.serial = w.serial → h.socketIndex = j % d.udpSocketCount
  paired : ∀ i, (d.udpSockets i).fd = none → (d.udpSockets i).writer = none
  nodup : d.registered.Nodup
  watched : ∀ fd ∈ d.registered, ∃ i, (d.udpSockets i).fd = some fd

structure Pinned (d : QuictunClientDriver) : Prop extends Pins d, Listed d

/-! ## Opening a socket -/

section
variable {d : QuictunClientDriver} {i j : Nat} {p : ConnPtr}

theorem udpSockets_closeUdpSocket_ne (hj : j ≠ i) : (d.closeUdpSocket i).udpSockets j = d.udpSockets j := by
  unfold closeUdpSocket
  split
  · simp only [udpSockets_modifySocket, if_neg hj]
  · rfl

theorem closeUdpSocket_empty (hp : (d.udpSockets i).fd = none → (d.udpSockets i).writer = none) :
    ((d.closeUdpSocket i).udpSockets i).fd = none ∧ ((d.closeUdpSocket i).udpSockets i).writer = none := by
  unfold closeUdpSocket
  split
  · simp only [udpSockets_modifySocket, if_pos, and_self]
  next hf => exact ⟨hf, hp hf⟩

theorem registered_closeUdpSocket (hn : d.registered.Nodup) : (d.closeUdpSocket i).registered.Nodup ∧
    ∀ fd, (d.udpSockets i).fd = some fd → fd ∉ (d.closeUdpSocket i).registered := by
  unfold closeUdpSocket
  split
  next fd hf =>
    refine ⟨hn.erase fd, fun k hk => ?_⟩
    obtain rfl : fd = k := some.inj (hf.symm.trans hk)
    exact hn.not_mem_erase
  next hf => exact ⟨hn, fun k hk => by cases hf.symm.trans hk⟩

section
variable (d : QuictunClientDriver)

def install (i : Nat) (fd : SocketFd) : QuictunClientDriver :=
  { d.modifySocket i fun u => { u with fd := some fd, writer := some d.nextWriter } with
    registered := d.registered ++ [fd], nextWriter := d.nextWriter + 1 }

theorem udpSockets_install (i j : Nat) (fd : SocketFd) : (d.install i fd).udpSockets j =
    if j = i then { d.udpSockets i with fd := some fd, writer := some d.nextWriter } else d.udpSockets j :=
  udpSockets_modifySocket d i j fun u => { u with fd := some fd, writer := some d.nextWriter }

theorem openUdpSocket_cases (i : Nat) (r : OpenOutcome) :
    d.openUdpSocket i r = (d.closeUdpSocket i, false) ∨ ∃ fd, fd ∉ (d.closeUdpSocket i).registered ∧
      d.openUdpSocket i r = ((d.closeUdpSocket i).install i fd, true) := by
  cases r with
  | opened fd =>
    unfold openUdpSocket
    dsimp only
    split
    · exact .inl rfl
    next hf => exact .inr ⟨fd, hf, rfl⟩
  | _ => exact .inl rfl

end

variable {r : OpenOutcome}

theorem udpSockets_openUdpSocket_ne (hj : j ≠ i) : (d.openUdpSocket i r).1.udpSockets j = d.udpSockets j := by
  rcases openUdpSocket_cases d i r with h | ⟨fd, -, h⟩
  · rw [h, udpSockets_closeUdpSocket_ne hj]
  · rw [h, udpSockets_install, if_neg hj, udpSockets_closeUdpSocket_ne hj]

variable {h : HeldConnection}

theorem not_idle_of_held (hp : d.connections.lookup p = some h) : d.udpSocketIsIdle h.socketIndex = false := by
  unfold udpSocketIsIdle
  rw [List.all_eq_false]
  refine ⟨⟨p, h⟩, AList.mem_lookup_iff.1 hp, by simp⟩

theorem held_of_not_idle (hi : d.udpSocketIsIdle i = false) : ∃ p h, d.connections.lookup p = some h ∧
    h.socketIndex = i := by
  unfold udpSocketIsIdle at hi
  obtain ⟨⟨p, h⟩, hm, he⟩ := all_eq_false.1 hi
  exact ⟨p, h, AList.mem_lookup_iff.2 hm, by simpa using he⟩

theorem udpSockets_reopenIfIdle (hp : d.connections.lookup p = some h) :
    (d.reopenIfIdle i r).1.udpSockets h.socketIndex = d.udpSockets h.socketIndex := by
  unfold reopenIfIdle
  split
  next hidle =>
    refine udpSockets_openUdpSocket_ne ?_
    rintro rfl
    cases (not_idle_of_held hp).symm.trans hidle
  · rfl

theorem closeUdpSocket_rest (d : QuictunClientDriver) (i : Nat) :
    (d.closeUdpSocket i).connections = d.connections ∧ (d.closeUdpSocket i).poolSlots = d.poolSlots ∧
      (d.closeUdpSocket i).udpSocketCount = d.udpSocketCount ∧ (d.closeUdpSocket i).nextSerial = d.nextSerial := by
  unfold closeUdpSocket
  split <;> exact ⟨rfl, rfl, rfl, rfl⟩

theorem Pins.watched_closeUdpSocket (h : Pins d) (i : Nat) :
    ∀ fd ∈ (d.closeUdpSocket i).registered, ∃ j, j ≠ i ∧ (d.udpSockets j).fd = some fd := by
  intro fd hfd
  have hm : fd ∈ d.registered := by
    unfold closeUdpSocket at hfd
    split at hfd
    · exact mem_of_mem_erase hfd
    · exact hfd
  obtain ⟨j, hj⟩ := h.watched fd hm
  refine ⟨j, ?_, hj⟩
  rintro rfl
  exact (registered_closeUdpSocket h.nodup).2 fd hj hfd

theorem Pins.closeUdpSocket (h : Pins d) (hu : ∀ p k, d.connections.lookup p = some k → k.socketIndex ≠ i) :
    Pins (d.closeUdpSocket i) := by
  obtain ⟨hc, hs, hn, hx⟩ := closeUdpSocket_rest d i
  constructor
  · rw [hc]
    intro p k hp
    rw [udpSockets_closeUdpSocket_ne (hu p k hp)]
    exact h.writer p k hp
  · simpa only [hc, hx] using h.serial
  · simpa only [hc] using h.unique
  · simpa only [hs, hx] using h.slotSerial
  · simpa only [hs, hc, hn] using h.slot
  · intro j hj
    by_cases hji : j = i
    · rw [hji]
      exact (closeUdpSocket_empty (h.paired i)).2
    · rw [udpSockets_closeUdpSocket_ne hji] at hj ⊢
      exact h.paired j hj
  · exact (registered_closeUdpSocket h.nodup).1
  · intro fd hfd
    obtain ⟨j, hj, hf⟩ := h.watched_closeUdpSocket i fd hfd
    exact ⟨j, (congrArg UdpSocket.fd (udpSockets_closeUdpSocket_ne hj)).trans hf⟩

theorem Pins.install (h : Pins d) (hu : ∀ p k, d.connections.lookup p = some k → k.socketIndex ≠ i)
    (hi : (d.udpSockets i).fd = none) {fd : SocketFd} (hf : fd ∉ d.registered) : Pins (d.install i fd) where
  writer p k hp := by
    rw [udpSockets_install, if_neg (hu p k hp)]
    exact h.writer p k hp
  serial := h.serial
  unique := h.unique
  slotSerial := h.slotSerial
  slot := h.slot
  paired j hj := by
    rw [udpSockets_install] at hj ⊢
    split at hj
    · cases hj
    next hji =>
      rw [if_neg hji]
      exact h.paired j hj
  nodup := nodup_append.2 ⟨h.nodup, nodup_singleton fd, fun a ha b hb => by
    rintro rfl
    exact hf (mem_singleton.1 hb ▸ ha)⟩
  watched g hg := by
    rcases mem_append.1 hg with hg | hg
    · obtain ⟨j, hj⟩ := h.watched g hg
      have hji : j ≠ i := by
        rintro rfl
        cases hi.symm.trans hj
      exact ⟨j, by rw [udpSockets_install, if_neg hji, hj]⟩
    · exact ⟨i, by rw [udpSockets_install, if_pos rfl, mem_singleton.1 hg]⟩

theorem Pins.openUdpSocket (h : Pins d) (hu : ∀ p k, d.connections.lookup p = some k → k.socketIndex ≠ i)
    (r : OpenOutcome) : Pins (d.openUdpSocket i r).1 ∧
      ((d.openUdpSocket i r).2 = true → ∃ w, ((d.openUdpSocket i r).1.udpSockets i).writer = some w) := by
  have hc : Pins (d.closeUdpSocket i) := h.closeUdpSocket hu
  rcases openUdpSocket_cases d i r with he | ⟨fd, hfd, he⟩
  · rw [he]
    exact ⟨hc, nofun⟩
  · rw [he]
    refine ⟨hc.install ?_ (closeUdpSocket_empty (h.paired i)).1 hfd, fun _ => ?_⟩
    · rw [(closeUdpSocket_rest d i).1]
      exact hu
    · rw [udpSockets_install, if_pos rfl]
      exact ⟨_, rfl⟩

theorem Pins.reopenIfIdle (h : Pins d) (i : Nat) (r : OpenOutcome) : Pins (d.reopenIfIdle i r).1 ∧
    ((d.reopenIfIdle i r).2 = true → ∃ w, ((d.reopenIfIdle i r).1.udpSockets i).writer = some w) := by
  unfold QuictunClientDriver.reopenIfIdle
  split
  next hidle =>
    refine h.openUdpSocket ?_ r
    rintro p k hp rfl
    cases (not_idle_of_held hp).symm.trans hidle
  next hidle =>
    obtain ⟨p, k, hp, rfl⟩ := held_of_not_idle (Bool.eq_false_iff.2 hidle)
    obtain ⟨w, -, hw⟩ := h.writer p k hp
    exact ⟨h, fun _ => ⟨w, hw⟩⟩

theorem Listed.not_blocked (h : Listed d) (hp : p ∈ d.pendingRemoval) (i : Nat) :
    p ∉ (d.udpSockets i).writeBlockedList := by
  intro hb
  obtain ⟨k, hs, -⟩ := h.blocked i p hb
  exact h.not_pending hs hp

theorem openUdpSocket_failed (hf : (d.openUdpSocket i r).2 = false) : (d.openUdpSocket i r).1 = d.closeUdpSocket i := by
  rcases openUdpSocket_cases d i r with he | ⟨fd, -, he⟩
  · rw [he]
  · rw [he] at hf
    cases hf

theorem Pinned.sound (h : Pinned d) : SocketsSound d where
  writer := h.writer
  kept i r p k hp := by rw [udpSockets_reopenIfIdle hp]
  slot j w p k hw hl := by
    obtain ⟨k', hk, hs⟩ := bind_eq_some_iff.1 hl
    split at hs
    next he =>
      obtain ⟨rfl, rfl⟩ : w.address = p ∧ k' = k := by simpa using hs
      exact h.slot j w _ k' hw hk he
    · cases hs
  removed p hp i hb := h.not_blocked hp i hb
  own i p hb := by
    obtain ⟨k, hs, hi⟩ := h.blocked i p hb
    exact ⟨k, hs.1, hi⟩
  failed i r hf := by
    rw [openUdpSocket_failed hf]
    obtain ⟨h1, h2⟩ := closeUdpSocket_empty (h.paired i)
    exact ⟨h1, h2, (registered_closeUdpSocket h.nodup).2, h.watched_closeUdpSocket i⟩

end

/-! ## Nothing new is pinned -/

structure Follows (d e : QuictunClientDriver) : Prop where
  pin : ∀ q h, e.connections.lookup q = some h → ∃ k, d.connections.lookup q = some k ∧ k.pin = h.pin
  socket : ∀ i, (e.udpSockets i).fd = (d.udpSockets i).fd ∧ (e.udpSockets i).writer = (d.udpSockets i).writer
  rest : e.poolSlots = d.poolSlots ∧ e.udpSocketCount = d.udpSocketCount ∧ e.nextSerial = d.nextSerial ∧
    e.registered = d.registered

section
variable {d e f : QuictunClientDriver} {p : ConnPtr} {i : Nat}

theorem Follows.refl (d : QuictunClientDriver) : Follows d d :=
  ⟨fun _ h hq => ⟨h, hq, rfl⟩, fun _ => ⟨rfl, rfl⟩, rfl, rfl, rfl, rfl⟩

theorem Follows.trans (h : Follows d e) (g : Follows e f) : Follows d f where
  pin q k hq := by
    obtain ⟨k', hk, hp⟩ := g.pin q k hq
    obtain ⟨k'', hk', hp'⟩ := h.pin q k' hk
    exact ⟨k'', hk', hp'.trans hp⟩
  socket i := ⟨(g.socket i).1.trans (h.socket i).1, (g.socket i).2.trans (h.socket i).2⟩
  rest := by
    obtain ⟨h1, h2, h3, h4⟩ := h.rest
    obtain ⟨g1, g2, g3, g4⟩ := g.rest
    exact ⟨g1.trans h1, g2.trans h2, g3.trans h3, g4.trans h4⟩

theorem Pins.follows (h : Pins d) (g : Follows d e) : Pins e := by
  obtain ⟨hs, hn, hx, hr⟩ := g.rest
  have hpin : ∀ q k, e.connections.lookup q = some k → ∃ k', d.connections.lookup q = some k' ∧
      k'.connection.serial = k.connection.serial ∧ k'.connection.writer = k.connection.writer ∧
      k'.socketIndex = k.socketIndex := by
    intro q k hq
    obtain ⟨k', hk, hp⟩ := g.pin q k hq
    simp only [HeldConnection.pin, Prod.mk.injEq] at hp
    exact ⟨k', hk, hp⟩
  constructor
  · intro q k hq
    obtain ⟨k', hk, -, hw, hi⟩ := hpin q k hq
    rw [(g.socket _).2, ← hi, ← hw]
    exact h.writer q k' hk
  · intro q k hq
    obtain ⟨k', hk, hser, -, -⟩ := hpin q k hq
    rw [hx, ← hser]
    exact h.serial q k' hk
  · intro q k r l hq hr he
    obtain ⟨k', hk, hser, -, -⟩ := hpin q k hq
    obtain ⟨l', hl, hser', -, -⟩ := hpin r l hr
    exact h.unique q k' r l' hk hl (hser.trans (he.trans hser'.symm))
  · rw [hs, hx]
    exact h.slotSerial
  · intro j w q k hw hq he
    obtain ⟨k', hk, hser, -, hi⟩ := hpin q k hq
    rw [hn, ← hi]
    exact h.slot j w q k' (hs ▸ hw) hk (hser.trans he)
  · intro j hj
    rw [(g.socket j).2]
    exact h.paired j ((g.socket j).1.symm.trans hj)
  · rw [hr]
    exact h.nodup
  · rw [hr]
    intro fd hfd
    obtain ⟨j, hj⟩ := h.watched fd hfd
    exact ⟨j, (g.socket j).1.trans hj⟩

theorem follows_modifySocket {f : UdpSocket → UdpSocket} (hf : ∀ u, (f u).fd = u.fd ∧ (f u).writer = u.writer) :
    Follows d (d.modifySocket i f) := by
  refine { Follows.refl d with socket := fun j => ?_ }
  rw [udpSockets_modifySocket]
  split
  next hj =>
    rw [hj]
    exact hf _
  · exact ⟨rfl, rfl⟩

theorem Follows.hold {h k : HeldConnection} (hd : Follows d e) (hk : k.pin = h.pin) :
    Follows (d.hold p k) (e.hold p h) := by
  refine { hd with pin := fun q l hq => ?_ }
  simp only [QuictunClientDriver.hold, FlatMap.lookup_insert_eq] at hq ⊢
  split at hq
  next hqp =>
    cases hq
    exact ⟨k, if_pos hqp, hk⟩
  next hqp =>
    rw [if_neg hqp]
    exact hd.pin q l hq

theorem follows_removeConnection : Follows d (d.removeConnection p i) := by
  have h : Follows d (d.modifySocket i (·.remove p)) := follows_modifySocket fun _ => ⟨rfl, rfl⟩
  exact { h with }

theorem stable_pinned : Stable Pinned where
  hold {d p k} hp h := by
    have hl : ∀ q, (d.hold p k).connections.lookup q = d.connections.lookup q := lookup_hold_self hp
    refine ⟨h.toPins.follows { Follows.refl d with pin := fun q l hq => ⟨l, (hl q).symm.trans hq, rfl⟩ }, ?_⟩
    exact h.toListed.sameRouting ⟨rfl, hl, rfl, rfl, fun _ => rfl⟩
  blocked hs h :=
    ⟨h.toPins.follows (follows_modifySocket (f := (·.add _)) fun _ => ⟨rfl, rfl⟩), h.toListed.onWriteBlocked hs⟩
  close _ h := ⟨h.toPins.follows (Follows.hold follows_removeConnection rfl), h.toListed.removeConnection⟩

variable {k : HeldConnection}

theorem Pinned.act (h : Pinned d) (p : ConnPtr) (os : List Outcome) : Pinned (d.act p os) :=
  stable_pinned.act (fun _ => ⟨{ h.toPins with }, { h.toListed with }⟩) h

theorem Pinned.clear (h : Pinned d) (i : Nat) :
    Pinned (d.modifySocket i fun u => { u with writeBlockedList := [] }) := by
  refine ⟨h.toPins.follows ?_, h.toListed.clear i⟩
  exact follows_modifySocket (f := fun u => { u with writeBlockedList := [] }) fun _ => ⟨rfl, rfl⟩

/-! ## Garbage -/

theorem follows_collect : Follows d (d.collect p) := by
  unfold collect
  split
  · refine ⟨fun q k hq => ?_, fun _ => ⟨rfl, rfl⟩, rfl, rfl, rfl, rfl⟩
    simp only [FlatMap.lookup_erase_eq] at hq
    split at hq
    · cases hq
    · exact ⟨k, hq, rfl⟩
  · exact Follows.refl d

theorem follows_collects : ∀ (ps : List ConnPtr) (d : QuictunClientDriver), Follows d (ps.foldl collect d)
  | [], d => Follows.refl d
  | _ :: ps, _ => follows_collect.trans (follows_collects ps _)

theorem Pinned.collectGarbage (h : Pinned d) : Pinned d.collectGarbage := by
  exact ⟨h.toPins.follows { follows_collects d.pendingRemoval d with }, h.toListed.collectGarbage⟩

/-! ## A new connection -/

theorem Pins.hold_new (h : Pins d) (hs : k.connection.serial = d.nextSerial)
    (hw : ∃ w, k.connection.writer = some w ∧ (d.udpSockets k.socketIndex).writer = some w) :
    Pins ({ d with nextSerial := d.nextSerial + 1 }.hold p k) := by
  have hl : ∀ q l, ({ d with nextSerial := d.nextSerial + 1 }.hold p k).connections.lookup q = some l →
      (q = p ∧ k = l) ∨ d.connections.lookup q = some l := by
    intro q l hq
    rw [hold, FlatMap.lookup_insert_eq] at hq
    split at hq
    next hqp => exact .inl ⟨hqp, some.inj hq⟩
    · exact .inr hq
  constructor
  · intro q l hq
    rcases hl q l hq with ⟨-, rfl⟩ | hq
    · exact hw
    · exact h.writer q l hq
  · intro q l hq
    rcases hl q l hq with ⟨-, rfl⟩ | hq
    · exact Nat.lt_succ_of_le (le_of_eq hs)
    · exact Nat.lt_succ_of_lt (h.serial q l hq)
  · intro q l r m hq hr he
    rcases hl q l hq with ⟨hqp, rfl⟩ | hq' <;> rcases hl r m hr with ⟨hrp, rfl⟩ | hr'
    · exact hqp.trans hrp.symm
    · exact absurd (he.symm.trans hs) (ne_of_lt (h.serial r m hr'))
    · exact absurd (he.trans hs) (ne_of_lt (h.serial q l hq'))
    · exact h.unique q l r m hq' hr' he
  · intro j w hj
    exact Nat.lt_succ_of_lt (h.slotSerial j w hj)
  · intro j w q l hj hq he
    rcases hl q l hq with ⟨-, rfl⟩ | hq
    · exact absurd (he.symm.trans hs) (ne_of_lt (h.slotSerial j w hj))
    · exact h.slot j w q l hj hq he
  · exact h.paired
  · exact h.nodup
  · exact h.watched

theorem Pins.set_slot (h : Pins d) {idx : Nat} {w : WeakPtr}
    (hp : d.connections.lookup w.address = some k) (hs : k.connection.serial = w.serial)
    (hi : k.socketIndex = idx % d.udpSocketCount) : Pins { d with poolSlots := d.poolSlots.set idx (some w) } := by
  have hset : ∀ (j : Nat) v, (d.poolSlots.set idx (some w))[j]? = some (some v) →
      (idx = j ∧ w = v) ∨ d.poolSlots[j]? = some (some v) := by
    intro j v hv
    rw [getElem?_set] at hv
    split at hv
    next hj =>
      split at hv
      · exact .inl ⟨hj, by simpa using hv⟩
      · cases hv
    · exact .inr hv
  refine { h with slotSerial := fun j v hv => ?_, slot := fun j v q l hv hq he => ?_ }
  · rcases hset j v hv with ⟨-, rfl⟩ | hv
    · exact hs ▸ h.serial _ k hp
    · exact h.slotSerial j v hv
  · rcases hset j v hv with ⟨rfl, rfl⟩ | hv
    · obtain rfl : q = w.address := h.unique q l _ k hq hp (he.trans hs.symm)
      obtain rfl : k = l := some.inj (hp.symm.trans hq)
      exact hi
    · exact h.slot j v q l hv hq he

theorem udpSocketCount_reopenIfIdle (d : QuictunClientDriver) (i : Nat) (r : OpenOutcome) :
    (d.reopenIfIdle i r).1.udpSocketCount = d.udpSocketCount := by
  have hc : (d.closeUdpSocket i).udpSocketCount = d.udpSocketCount := (closeUdpSocket_rest d i).2.2.1
  unfold reopenIfIdle
  split
  · rcases openUdpSocket_cases d i r with h | ⟨fd, -, h⟩
    · rw [h, hc]
    · rw [h]
      exact hc
  · rfl

theorem Pinned.createNewConnection (h : Pinned d) {i : Nat} {a : Accepted} (ha : a.address ∉ d.connections) :
    Pinned (d.createNewConnection i a).1 ∧ (d.createNewConnection i a).1.udpSocketCount = d.udpSocketCount ∧
      ∀ w, (d.createNewConnection i a).2 = some w → ∃ k,
        (d.createNewConnection i a).1.connections.lookup w.address = some k ∧ k.connection.serial = w.serial ∧
          k.socketIndex = i := by
  have hsame := sameRouting_reopenIfIdle d i a.reopened
  obtain ⟨hpins, hw⟩ := h.toPins.reopenIfIdle i a.reopened
  have hlist : Listed (d.reopenIfIdle i a.reopened).1 := h.toListed.sameRouting hsame
  have hn := udpSocketCount_reopenIfIdle d i a.reopened
  have hnew : (d.reopenIfIdle i a.reopened).1.connections.lookup a.address = none :=
    (hsame.2.1 _).trans (AList.lookup_eq_none.2 ha)
  unfold QuictunClientDriver.createNewConnection
  generalize d.reopenIfIdle i a.reopened = r at *
  dsimp only
  split
  next hok =>
    obtain ⟨w, hw⟩ := hw hok
    let s : QuictunClientConnection × QuictunClientDriver :=
      ({ serial := r.1.nextSerial, clientConnectionId := r.1.nextClientCid, writer := (r.1.udpSockets i).writer },
        { r.1 with nextClientCid := r.1.nextClientCid + 1, nextSerial := r.1.nextSerial + 1 })
    have hs : Pinned (s.2.hold a.address ⟨s.1, i⟩) :=
      ⟨{ hpins.hold_new (p := a.address) (k := ⟨s.1, i⟩) rfl ⟨w, hw, hw⟩ with },
        { hlist.hold_new hnew ⟨s.1, i⟩ with }⟩
    have hq := stable_pinned.reports a.handshake hs
    have hc : (r.1.create i a).2.connections.lookup a.address = none := by
      rw [create, connections_reports]
      exact hnew
    rw [register_eq hc]
    refine ⟨⟨{ hq.toPins with }, { hq.toListed with }⟩, ?_, fun v hv => ?_⟩
    · exact Stable.reports (P := fun e => e.udpSocketCount = _) ⟨fun _ h => h, fun _ h => h, fun _ h => h⟩ a.handshake
        (s := s) hn
    · cases hv
      exact ⟨_, AList.lookup_insert _, rfl, rfl⟩
  · exact ⟨⟨hpins, hlist⟩, hn, nofun⟩

/-! ## Runs -/

theorem Pinned.accept (h : Pinned d) {a : Accepted} (ha : a.address ∉ d.connections) : Pinned (d.accept a) := by
  unfold QuictunClientDriver.accept
  split
  · exact h
  have h1 : Pinned { d with poolRoundRobinNext := d.poolRoundRobinNext + 1 } := ⟨{ h.toPins with }, { h.toListed with }⟩
  dsimp only
  split
  · exact h1.act _ _
  · obtain ⟨h2, hn, hw⟩ := h1.createNewConnection (i := d.nextSlot % d.udpSocketCount) ha
    split
    next heq =>
      rw [heq] at h2
      exact h2
    next w heq =>
      rw [heq] at h2 hn hw
      obtain ⟨k, hk, hs, hi⟩ := hw w rfl
      refine Pinned.act ⟨h2.toPins.set_slot hk hs (hi.trans ?_), { h2.toListed with }⟩ _ _
      rw [hn]

theorem Pinned.step {e : Ev} {d' : QuictunClientDriver} (h : Pinned d) (hs : d.step e = some d') : Pinned d' := by
  cases e with
  | accept a =>
    obtain ⟨ha, ⟨⟩⟩ := ite_none_left_eq_some.1 hs
    exact h.accept ha
  | packet destination os =>
    cases hs
    unfold processPacket
    split
    · exact h
    · exact h.act _ os
  | act p os =>
    obtain ⟨-, ⟨⟩⟩ := ite_none_right_eq_some.1 hs
    exact h.act p os
  | writable i os =>
    cases hs
    exact stable_pinned.onWriterUnblocked os h.toListed (h.clear i)
  | collectGarbage =>
    cases hs
    exact h.collectGarbage

theorem pinned_opens (opens : Nat → OpenOutcome) : ∀ (is : List Nat) {d : QuictunClientDriver}, Pinned d →
    (∀ p, d.connections.lookup p = none) → Pinned (is.foldl (fun d i => (d.openUdpSocket i (opens i)).1) d)
  | [], _, h, _ => h
  | i :: is, d, h, hn => by
    have hs := sameRouting_openUdpSocket d i (opens i)
    refine pinned_opens opens is ⟨(h.toPins.openUdpSocket ?_ (opens i)).1, h.toListed.sameRouting hs⟩
      fun p => (hs.2.1 p).trans (hn p)
    intro p k hp
    cases (hn p).symm.trans hp

theorem pinned_start (transparent : Bool) (udpSocket connPerUdp : Nat) (opens : Nat → OpenOutcome) :
    Pinned (start transparent udpSocket connPerUdp opens) := by
  refine pinned_opens opens _ ⟨⟨?_, ?_, ?_, ?_, ?_, fun _ _ => rfl, nodup_nil, forall_mem_nil _⟩,
    fun _ _ hp => absurd hp not_mem_nil, forall_mem_nil _⟩ fun _ => rfl
  · intro p h hp
    cases hp
  · intro p h hp
    cases hp
  · intro p h q k hp
    cases hp
  · intro j w hw
    cases (mem_replicate.1 (mem_of_getElem? hw)).2
  · intro j w p h hw hp
    cases hp

/-- In every state a run reaches, the writers, the pool slots, the lists of blocked writers and the
registrations belong together. -/
theorem sockets_sound {transparent : Bool} {udpSocket connPerUdp : Nat} {opens : Nat → OpenOutcome} {es : List Ev}
    {d : QuictunClientDriver} (hr : Lts.run step (start transparent udpSocket connPerUdp opens) es = some d) :
    SocketsSound d := by
  have hp : Pinned d :=
    Lts.run_inv (fun _ _ _ => Pinned.step) (pinned_start transparent udpSocket connPerUdp opens) hr
  exact hp.sound

end

def reopenFails : List Ev :=
  [.accept { address := 100, reopened := .opened 6, handshake := [.written, .blocked] },
    .accept { address := 200, reopened := .opened 7 }, .writable 0 fun _ => [.blocked], .act 100 [.closed],
    .collectGarbage, .accept { address := 300, reopened := .notRegistered }]

def reopenFailsEnd : QuictunClientDriver :=
  (Lts.run step (start false 2 1 fun _ => .notCreated) reopenFails).getD (start false 2 1 fun _ => .notCreated)

theorem sockets_sound_reopenFails : (reopenFailsEnd.udpSockets 0).fd = none ∧
    (reopenFailsEnd.udpSockets 0).writer = none ∧
    reopenFailsEnd.registered = [7] ∧ (reopenFailsEnd.connections.lookup 200).isSome ∧ SocketsSound reopenFailsEnd := by
  have hr : Lts.run step (start false 2 1 fun _ => .notCreated) reopenFails = some reopenFailsEnd := by rfl
  refine ⟨?_, ?_, ?_, ?_, sockets_sound hr⟩ <;> decide +kernel

/-! ## The socket that connections share -/

/-- `s` is the socket at `i`, with the connections pinned to it. -/
structure Shares {κ : Type*} (i : Nat) (d : QuictunClientDriver) (s : SharedSocket κ) : Prop where
  list : s.writeBlockedList = (d.udpSockets i).writeBlockedList
  serving : ∀ p, (s.connected p).isSome = true ↔ ∃ h, d.Serving p h ∧ h.socketIndex = i

section
variable {κ : Type*} {d : QuictunClientDriver} {s : SharedSocket κ} {i : Nat} {p : ConnPtr}

theorem Shares.write (h : Shares i d s) {k : HeldConnection} (hs : d.Serving p k) (hi : k.socketIndex = i) :
    Shares i (d.onWriteBlocked p i) (s.act (.write p true)) := by
  obtain ⟨c, hc⟩ := isSome_iff_exists.1 ((h.serving p).2 ⟨k, hs, hi⟩)
  simp only [SharedSocket.act, hc, SharedSocket.write, SharedSocket.onWriteBlocked, SharedSocket.add_eq,
    SharedSocket.rearmIfLevel_eq]
  cases s.writeBlocked <;> refine ⟨?_, h.serving⟩ <;>
    simp [onWriteBlocked, udpSockets_modifySocket, UdpSocket.add, h.list]

theorem Shares.close {c : QuictunClientConnection} (h : Shares i (d.hold p ⟨c, i⟩) s) (hc : c.closed = false) :
    Shares i ((d.removeConnection p i).hold p ⟨{ c with closed := true }, i⟩) (s.act (.close p)) := by
  obtain ⟨k, hk⟩ := isSome_iff_exists.1 ((h.serving p).2 ⟨_, ⟨AList.lookup_insert _, hc⟩, rfl⟩)
  have hl : s.writeBlockedList = (d.udpSockets i).writeBlockedList := h.list
  simp only [SharedSocket.act, hk]
  refine ⟨?_, fun q => ?_⟩
  · simp [SharedSocket.removeConnection, SharedSocket.remove, hl, hold, removeConnection, udpSockets_modifySocket,
      UdpSocket.remove]
  · rcases eq_or_ne q p with rfl | hq
    · simp [SharedSocket.connected, SharedSocket.removeConnection, SharedSocket.remove, Serving, hold]
    · simp only [serving_hold_removeConnection hq, ← h.serving q, SharedSocket.connected, SharedSocket.removeConnection,
        SharedSocket.remove, FlatMap.lookup_insert_eq, if_neg hq]

/-- What connections do to the socket is what they do to the one that they share. -/
theorem stable_shares (s : SharedSocket κ) : Stable fun d => ∃ as, Shares i d (s.acts as) where
  hold hp := by
    rintro ⟨as, h⟩
    refine ⟨as, h.list, ?_⟩
    simpa only [Serving, lookup_hold_self hp] using h.serving
  blocked {d p k} hs := by
    rintro ⟨as, h⟩
    by_cases hi : k.socketIndex = i
    · refine ⟨as ++ [.write p true], ?_⟩
      rw [SharedSocket.acts, foldl_append, hi]
      exact h.write hs hi
    · refine ⟨as, h.list.trans ?_, h.serving⟩
      rw [onWriteBlocked, udpSockets_modifySocket, if_neg (Ne.symm hi)]
  close {d p c j} hc := by
    rintro ⟨as, h⟩
    by_cases hi : j = i
    · subst hi
      refine ⟨as ++ [.close p], ?_⟩
      rw [SharedSocket.acts, foldl_append]
      exact h.close hc
    · refine ⟨as, h.list.trans ?_, fun q => (h.serving q).trans ?_⟩
      · simp [hold, removeConnection, udpSockets_modifySocket, Ne.symm hi]
      · rcases eq_or_ne q p with rfl | hq
        · simp [Serving, hold, hi]
        · simp only [serving_hold_removeConnection hq]

theorem Shares.act (h : Shares i d s) (p : ConnPtr) (os : List Outcome) : ∃ as, Shares i (d.act p os) (s.acts as) :=
  (stable_shares s).act (fun _ => ⟨[], h.list, h.serving⟩) ⟨[], h⟩

theorem Shares.onWriterUnblocked (h : Shares i d s) (hd : d.Listed) (os : ConnPtr → List Outcome) :
    ∃ as, Shares i (d.onWriterUnblocked i os) (({ s with writeBlockedList := [] } : SharedSocket κ).acts as) := by
  refine (stable_shares _).onWriterUnblocked os hd ⟨[], ?_, h.serving⟩
  rw [udpSockets_modifySocket, if_pos rfl]
  rfl

end

end QuictunClientDriver

end Quictun
