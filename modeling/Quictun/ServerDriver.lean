import Quictun.BlockedWriters

/-!
# Admission of connections by the server driver

`ProcessPacket()` delivers a packet by its destination connection ID, and creates a
connection for an ID it does not know, within two limits: on the connections that exist
and on those created in one iteration of the event loop. Closed connections count until
`CollectGarbage()` erases them. What becomes of connections on the listening socket is what
becomes of them on a `SharedSocket` (`run_socket`).
-/

namespace Quictun

open Udp Option

namespace QuictunServerDriver

abbrev QuicConnectionId := List UInt8

def kQuictunMinInitialPacketLength : Nat := 1200

/-- A packet that was read; the destination is there if the header can be parsed. -/
structure Packet where
  destination : Option QuicConnectionId
  length : Nat
deriving DecidableEq

inductive Ev
  /-- A packet is processed, in which `acts` happens. A connection that is created for it is at `p`. -/
  | packet (packet : Packet) (p : ConnPtr) (acts : List Act)
  | poll (mask : QuicSocketEventMask)
  | onSocketEvent (turn : ConnPtr → List Act)
  | callback (acts : List Act)
  | collectGarbage

end QuictunServerDriver

open QuictunServerDriver

structure QuictunServerDriver where
  socket : SharedSocket QuicConnectionId
  maxNewConnectionsPerEventLoop : Nat
  maxConcurrentConnections : Nat
  newConnectionsAllowedThisEventLoop : Int
  createdThisEventLoop : Nat := 0
  delivered : List ConnPtr := []

namespace QuictunServerDriver

-- `Create()` never returns null, so there is no branch for it
def processPacket (d : QuictunServerDriver) (packet : Packet) (p : ConnPtr) (as : List Act) : QuictunServerDriver :=
  match packet.destination with
  | none => d
  | some dcid =>
    match d.socket.connections.lookup dcid with
    | some q => { d with socket := d.socket.acts as, delivered := d.delivered ++ [q] }
    | none =>
      if packet.length < kQuictunMinInitialPacketLength then d
      else if d.socket.connections.entries.length ≥ d.maxConcurrentConnections then d
      else if d.newConnectionsAllowedThisEventLoop ≤ 0 then d
      else
        { d with
          socket := d.socket.create p dcid as
          newConnectionsAllowedThisEventLoop := d.newConnectionsAllowedThisEventLoop - 1
          createdThisEventLoop := d.createdThisEventLoop + 1 }

def collectGarbage (d : QuictunServerDriver) : QuictunServerDriver :=
  { d with
    socket := d.socket.collectGarbage
    newConnectionsAllowedThisEventLoop := d.maxNewConnectionsPerEventLoop
    createdThisEventLoop := 0 }

def step (d : QuictunServerDriver) : Ev → Option QuictunServerDriver
  | .packet packet p as => if p ∈ d.socket.objects then none else some (d.processPacket packet p as)
  | .poll mask => (d.socket.step (.poll mask)).map fun s => { d with socket := s }
  | .onSocketEvent turn => (d.socket.step (.onSocketEvent turn)).map fun s => { d with socket := s }
  | .callback as => (d.socket.step (.callback as)).map fun s => { d with socket := s }
  | .collectGarbage => some d.collectGarbage

def start (edgeTriggered : Bool) (maxNew maxConcurrent : Nat) : QuictunServerDriver where
  socket := SharedSocket.registered edgeTriggered
  maxNewConnectionsPerEventLoop := maxNew
  maxConcurrentConnections := maxConcurrent
  newConnectionsAllowedThisEventLoop := maxNew

end QuictunServerDriver

/-! ## What callbacks leave alone -/

namespace SharedSocket

section
variable {κ : Type*} {s t : SharedSocket κ}

def Settled (s t : SharedSocket κ) : Prop :=
  t.registration.isSome = s.registration.isSome ∧ t.connections = s.connections ∧ t.nextSerial = s.nextSerial

theorem Settled.refl (s : SharedSocket κ) : Settled s s := ⟨rfl, rfl, rfl⟩

theorem stable_settled (s : SharedSocket κ) : Stable (Settled s) where
  writers _ _ _ _ hr h := ⟨hr.trans h.1, h.2⟩
  close _ h := h

theorem settled_acts (as : List Act) (s : SharedSocket κ) : Settled s (s.acts as) :=
  (stable_settled s).acts as (Settled.refl s)

variable [DecidableEq κ]

theorem settled_create (p : ConnPtr) (key : κ) (as : List Act) :
    (s.create p key as).registration.isSome = s.registration.isSome ∧
      (s.create p key as).connections = s.connections.emplace key p ∧
        (s.create p key as).nextSerial = s.nextSerial + 1 := by
  rw [create_eq]
  exact settled_acts as { s.construct p key with connections := s.connections.emplace key p }

theorem collect_shrinks (s : SharedSocket κ) (k : κ) : (s.collect k).registration = s.registration ∧
    (s.collect k).connections.entries.length ≤ s.connections.entries.length := by
  unfold collect
  split
  · exact ⟨rfl, le_rfl⟩
  · exact ⟨rfl, (List.kerase_sublist _ _).length_le⟩

theorem collects_shrink : ∀ (ks : List κ) (s : SharedSocket κ), (ks.foldl collect s).registration = s.registration ∧
    (ks.foldl collect s).connections.entries.length ≤ s.connections.entries.length
  | [], _ => ⟨rfl, le_rfl⟩
  | k :: ks, s => by
    obtain ⟨h1, h2⟩ := collects_shrink ks (s.collect k)
    obtain ⟨g1, g2⟩ := collect_shrinks s k
    exact ⟨h1.trans g1, le_trans h2 g2⟩

end

end SharedSocket

open SharedSocket

namespace QuictunServerDriver

/-! ## Runs -/

structure Inv (maxNew maxConcurrent : Nat) (d : QuictunServerDriver) : Prop where
  limits : d.maxNewConnectionsPerEventLoop = maxNew ∧ d.maxConcurrentConnections = maxConcurrent
  registered : d.socket.registration.isSome
  concurrent : d.socket.connections.entries.length ≤ d.maxConcurrentConnections
  created : d.createdThisEventLoop ≤ d.maxNewConnectionsPerEventLoop
  budget : d.newConnectionsAllowedThisEventLoop = d.maxNewConnectionsPerEventLoop - d.createdThisEventLoop

/-- The count is of the connections constructed since `CollectGarbage()`, each of which takes a serial number. -/
def Counts (d : QuictunServerDriver) (e : Ev) (d' : QuictunServerDriver) : Prop :=
  (e = .collectGarbage ∧ d'.createdThisEventLoop = 0) ∨
    d'.createdThisEventLoop + d.socket.nextSerial = d.createdThisEventLoop + d'.socket.nextSerial

section
variable {maxNew maxConcurrent : Nat} {d d' : QuictunServerDriver}

theorem Inv.settled (h : Inv maxNew maxConcurrent d) {s : SharedSocket QuicConnectionId}
    (hs : SharedSocket.Settled d.socket s)
    (e : Ev) : Inv maxNew maxConcurrent { d with socket := s } ∧ Counts d e { d with socket := s } := by
  obtain ⟨hr, hc, hn⟩ := hs
  refine ⟨{ h with registered := hr.trans h.registered, concurrent := ?_ }, .inr ?_⟩
  · rw [hc]
    exact h.concurrent
  · rw [hn]

theorem processPacket_cases (d : QuictunServerDriver) (packet : Packet) (p : ConnPtr) (as : List Act) :
    d.processPacket packet p as = d ∨
    (∃ q, d.processPacket packet p as = { d with socket := d.socket.acts as, delivered := d.delivered ++ [q] }) ∨
    ∃ dcid, d.socket.connections.lookup dcid = none ∧
      d.socket.connections.entries.length < d.maxConcurrentConnections ∧ 0 < d.newConnectionsAllowedThisEventLoop ∧
      d.processPacket packet p as = { d with
        socket := d.socket.create p dcid as
        newConnectionsAllowedThisEventLoop := d.newConnectionsAllowedThisEventLoop - 1
        createdThisEventLoop := d.createdThisEventLoop + 1 } := by
  unfold processPacket
  split
  · exact .inl rfl
  next dcid _ =>
    split
    next q _ => exact .inr (.inl ⟨q, rfl⟩)
    next hn =>
      split
      · exact .inl rfl
      · split
        · exact .inl rfl
        next hc =>
          split
          · exact .inl rfl
          next hb => exact .inr (.inr ⟨dcid, hn, Nat.lt_of_not_le hc, Int.lt_of_not_ge hb, rfl⟩)

theorem Inv.create (h : Inv maxNew maxConcurrent d) {p : ConnPtr} {dcid : QuicConnectionId} {as : List Act}
    (hn : d.socket.connections.lookup dcid = none)
    (hc : d.socket.connections.entries.length < d.maxConcurrentConnections)
    (hb : 0 < d.newConnectionsAllowedThisEventLoop) : Inv maxNew maxConcurrent { d with
      socket := d.socket.create p dcid as
      newConnectionsAllowedThisEventLoop := d.newConnectionsAllowedThisEventLoop - 1
      createdThisEventLoop := d.createdThisEventLoop + 1 } := by
  obtain ⟨hr, hm, -⟩ := settled_create (s := d.socket) p dcid as
  have hbud := h.budget
  refine ⟨h.limits, hr.trans h.registered, ?_, ?_, ?_⟩
  · rw [hm, FlatMap.length_emplace_of_none hn]
    exact hc
  · dsimp only
    omega
  · dsimp only
    omega

theorem Inv.collectGarbage (h : Inv maxNew maxConcurrent d) : Inv maxNew maxConcurrent d.collectGarbage := by
  obtain ⟨hr, hl⟩ := collects_shrink d.socket.pendingRemoval d.socket
  refine ⟨h.limits, ?_, le_trans hl h.concurrent, Nat.zero_le _, (Int.sub_zero _).symm⟩
  exact (congrArg isSome hr).trans h.registered

theorem Inv.step {e : Ev} (h : Inv maxNew maxConcurrent d) (hs : d.step e = some d') :
    (Inv maxNew maxConcurrent d' ∧ Counts d e d') ∧ ∃ fs, Lts.run SharedSocket.step d.socket fs = some d'.socket := by
  have hone : ∀ {f : Udp.Ev QuicConnectionId} {s}, d.socket.step f = some s →
      ∃ fs, Lts.run SharedSocket.step d.socket fs = some s := fun hf => ⟨[_], Lts.run_cons.2 ⟨_, hf, rfl⟩⟩
  cases e with
  | packet packet p as =>
    obtain ⟨hp, ⟨⟩⟩ := ite_none_left_eq_some.1 hs
    rcases processPacket_cases d packet p as with he | ⟨q, he⟩ | ⟨dcid, hn, hc, hb, he⟩
    · rw [he]
      exact ⟨⟨h, .inr rfl⟩, [], rfl⟩
    · rw [he]
      obtain ⟨h', hcnt⟩ := h.settled (settled_acts as d.socket) (.packet packet p as)
      exact ⟨⟨{ h' with }, hcnt⟩, hone (f := .callback as) rfl⟩
    · rw [he]
      refine ⟨⟨h.create hn hc hb, .inr ?_⟩, hone (f := .create p dcid as) ?_⟩
      · simp only [(settled_create p dcid as).2.2]
        omega
      rw [SharedSocket.step, if_pos ⟨hp, AList.lookup_eq_none.1 hn, h.registered⟩]
  | poll mask =>
    obtain ⟨s, hf, rfl⟩ := map_eq_some_iff.1 hs
    refine ⟨h.settled ?_ _, hone hf⟩
    simp only [SharedSocket.step, SharedSocket.poll] at hf
    split at hf
    next events hreg hready =>
      split at hf
      · cases hf
        exact SharedSocket.Settled.refl _
      · cases hf
        exact ⟨by rw [hreg]; rfl, rfl, rfl⟩
    · cases hf
  | onSocketEvent turn =>
    obtain ⟨s, hf, rfl⟩ := map_eq_some_iff.1 hs
    obtain ⟨m, hm, rfl⟩ := map_eq_some_iff.1 hf
    have hse := (stable_settled d.socket).onSocketEvent (s := { d.socket with ready := none }) m turn ⟨rfl, rfl, rfl⟩
    exact ⟨h.settled hse _, hone hf⟩
  | callback as =>
    cases hs
    exact ⟨h.settled (settled_acts as d.socket) _, hone (f := .callback as) rfl⟩
  | collectGarbage =>
    cases hs
    exact ⟨⟨h.collectGarbage, .inl ⟨rfl, rfl⟩⟩, hone (f := .collectGarbage) rfl⟩

theorem Inv.run : ∀ {es : List Ev} {d d' : QuictunServerDriver}, Inv maxNew maxConcurrent d →
    Lts.run QuictunServerDriver.step d es = some d' →
    Inv maxNew maxConcurrent d' ∧ ∃ fs, Lts.run SharedSocket.step d.socket fs = some d'.socket
  | [], d, d', h, hr => by
    cases hr
    exact ⟨h, [], rfl⟩
  | e :: es, d, d', h, hr => by
    obtain ⟨m, hm, hr⟩ := Lts.run_cons.1 hr
    obtain ⟨⟨hi, -⟩, fs, hfs⟩ := h.step hm
    obtain ⟨hi', gs, hgs⟩ := Inv.run hi hr
    exact ⟨hi', fs ++ gs, Lts.run_append.2 ⟨_, hfs, hgs⟩⟩

theorem inv_start (edgeTriggered : Bool) (maxNew maxConcurrent : Nat) :
    Inv maxNew maxConcurrent (start edgeTriggered maxNew maxConcurrent) :=
  ⟨⟨rfl, rfl⟩, rfl, Nat.zero_le _, Nat.zero_le _, (Int.sub_zero _).symm⟩

theorem run_socket {edgeTriggered : Bool} {es : List Ev}
    (hr : Lts.run step (start edgeTriggered maxNew maxConcurrent) es = some d) :
    ∃ fs, Lts.run SharedSocket.step (SharedSocket.registered edgeTriggered) fs = some d.socket :=
  ((inv_start edgeTriggered maxNew maxConcurrent).run hr).2

/-- The driver between two callbacks. Connections are told apart by their serial numbers. -/
structure AdmissionSound (maxNew maxConcurrent : Nat) (d : QuictunServerDriver) : Prop where
  concurrent : d.socket.connections.entries.length ≤ maxConcurrent
  created : d.createdThisEventLoop ≤ maxNew
  counted : ∀ e d', d.step e = some d' → Counts d e d'
  recorded : SharedSocket.Recorded d.socket
  /-- A packet for an ID in the map goes to the connection created for that ID, and creates none. -/
  delivered : ∀ packet p as dcid q d', packet.destination = some dcid →
    d.socket.connections.lookup dcid = some q → d.step (.packet packet p as) = some d' →
      (∃ c, d.socket.objects.lookup q = some c ∧ c.key = dcid) ∧ d'.delivered = d.delivered ++ [q] ∧
        d'.createdThisEventLoop = d.createdThisEventLoop ∧ d'.socket.nextSerial = d.socket.nextSerial
  /-- Only connections that have closed were erased, each once. -/
  erased : d.socket.erased.Nodup ∧ ∀ n ∈ d.socket.erased, n ∈ d.socket.reported
  collected : d.socket.reported.Nodup ∧ d.collectGarbage.socket.erased.Perm d.socket.reported
  unlisted : ∀ p ∈ d.socket.writeBlockedList, ∃ c, d.socket.objects.lookup p = some c ∧ c.serial ∉ d.socket.erased

theorem admission_sound {edgeTriggered : Bool} {es : List Ev}
    (hr : Lts.run step (start edgeTriggered maxNew maxConcurrent) es = some d) :
    AdmissionSound maxNew maxConcurrent d := by
  obtain ⟨hi, fs, hfs⟩ := (inv_start edgeTriggered maxNew maxConcurrent).run hr
  have hl : SharedSocket.Ledger d.socket :=
    Lts.run_inv (fun _ _ _ => SharedSocket.Ledger.step) (ledger_registered edgeTriggered) hfs
  have hb : SharedSocket.Inv d.socket :=
    Lts.run_inv (fun _ _ _ => SharedSocket.Inv.step) (inv_registered edgeTriggered) hfs
  obtain ⟨hnew, hcon⟩ := hi.limits
  refine ⟨hcon ▸ hi.concurrent, hnew ▸ hi.created, fun _ _ hs => (hi.step hs).1.2, hl.recorded, ?_,
    ⟨hl.erasedOnce, fun n hn => (hl.reported n).2 (.inl hn)⟩,
    ⟨hl.reportedOnce, ?_⟩, ?_⟩
  · intro packet p as dcid q d' hd hq hs
    obtain ⟨-, ⟨⟩⟩ := ite_none_left_eq_some.1 hs
    simp only [processPacket, hd, hq, true_and]
    exact ⟨hl.keyed dcid q hq, (settled_acts as d.socket).2.2⟩
  · exact hl.erased_collectGarbage
  · intro p hp
    obtain ⟨c, hc⟩ := hb.blocked p hp
    refine ⟨c, (connected_eq_some.1 hc).1, fun he => ?_⟩
    exact (hl.not_reported hc).1 ((hl.reported _).2 (.inl he))

end

def closedInCreate : List Ev :=
  [.packet ⟨some [1], 1200⟩ 100 [.write 100 true, .close 100], .packet ⟨some [1], 1200⟩ 101 [],
    .packet ⟨some [2], 1250⟩ 101 [.write 101 false], .packet ⟨some [3], 1200⟩ 102 [], .collectGarbage,
    .packet ⟨some [1], 1200⟩ 100 []]

def closedInCreateEnd : QuictunServerDriver := (Lts.run step (start false 2 2) closedInCreate).getD (start false 2 2)

theorem admission_sound_closedInCreate : closedInCreateEnd.socket.connections.lookup [1] = some 100 ∧
    closedInCreateEnd.socket.connections.lookup [2] = some 101 ∧ closedInCreateEnd.socket.erased = [0] ∧
      closedInCreateEnd.delivered = [100] ∧ AdmissionSound 2 2 closedInCreateEnd := by
  have hr : Lts.run step (start false 2 2) closedInCreate = some closedInCreateEnd := by rfl
  refine ⟨?_, ?_, ?_, ?_, admission_sound hr⟩ <;> decide +kernel

/-- Whoever waits for the server's socket is there, once, and is woken. -/
theorem blocked_writers_woken {edgeTriggered : Bool} {maxNew maxConcurrent : Nat} {d : QuictunServerDriver}
    {es : List Ev} (hr : Lts.run step (start edgeTriggered maxNew maxConcurrent) es = some d) :
    d.socket.writeBlockedList.Nodup ∧ (∀ p ∈ d.socket.writeBlockedList, ∃ c, d.socket.connected p = some c) ∧
    (d.socket.writeBlockedList ≠ [] → d.socket.armed = true ∨ d.socket.ready.any (·.writable) = true) := by
  obtain ⟨fs, hfs⟩ := run_socket hr
  have h := Lts.run_inv (fun _ _ _ => SharedSocket.Inv.step) (SharedSocket.inv_registered edgeTriggered) hfs
  exact ⟨h.nodup, h.blocked, h.woken⟩

theorem blocked_writers_woken_one :
    ∃ d, Lts.run step (start false 1 1) [.packet ⟨some [1], 1200⟩ 100 [.write 100 true]] = some d ∧
    d.socket.writeBlockedList = [100] ∧ (d.socket.armed = true ∨ d.socket.ready.any (·.writable) = true) := by
  have hr : Lts.run step (start false 1 1) [.packet ⟨some [1], 1200⟩ 100 [.write 100 true]] = some _ := rfl
  exact ⟨_, hr, rfl, (blocked_writers_woken hr).2.2 (by decide)⟩

end QuictunServerDriver

end Quictun
