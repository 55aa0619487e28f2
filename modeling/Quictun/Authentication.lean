import Quictun.PreambleFormat
import Quictun.ServerConnection

/-!
# Authenticating one stream

`OnStreamDataAvailable()` for one stream on its own: a loop of 512-byte reads that
ends with a decision or with nothing left to read, called again for each arrival.
`Authentication.arrivals` is where a stream stands after its frames, and
`outcome_arrivals` says that only the bytes and the FIN matter for it, not the cuts.
The connection model refines this view, `serve_arrivals`.
-/

namespace Quictun

open Function Server QuictunServerConnection List

inductive Authentication
  | reading (buf : Bytes) (s : QuictunStream)
  | started (leftover : Bytes) (dest : Option QuicSocketAddress) (s : QuictunStream)
  | rejected
  | dropped (s : QuictunStream)
deriving DecidableEq

inductive Outcome
  | start (dest : Option QuicSocketAddress) (remaining : Bytes)
  | reset
  | wait
  | drop
deriving DecidableEq

namespace Authentication

def outcome : Authentication → Outcome
  | .reading _ _ => .wait
  | .started leftover dest s => .start dest (leftover ++ s.readable)
  | .rejected => .reset
  | .dropped _ => .drop

section
variable (psk : Bytes) (transparent : Bool)

def loop : Nat → Bytes → QuictunStream → Authentication
  | 0, buf, s => .reading buf s
  | n + 1, buf, s =>
    let (data, fin, s', _) := s.read kKeyReadSize
    match examine psk transparent (buf ++ data) with
    | .reject => .rejected
    | .accept leftover dest => .started leftover dest s'
    | .more =>
      if data.isEmpty then (if fin then .dropped s' else .reading buf s')
      else loop n (buf ++ data) s'

def onStreamDataAvailable (buf : Bytes) (s : QuictunStream) : Authentication :=
  loop psk transparent (s.readable.length + 1) buf s

def arrive : Authentication → Bytes × Bool → Authentication
  | .reading buf s, (bs, fin) =>
    let (s', notice) := s.onStreamFrame bs fin
    if notice = some .dataAvailable then onStreamDataAvailable psk transparent buf s' else .reading buf s'
  | .started leftover dest s, (bs, fin) => .started leftover dest (s.onStreamFrame bs fin).1
  | .rejected, _ => .rejected
  | .dropped s, (bs, fin) => .dropped (s.onStreamFrame bs fin).1

def arrivals (frames : List (Bytes × Bool)) : Authentication :=
  frames.foldl (arrive psk transparent) (.reading [] {})

end

end Authentication

def framesOf (chunks : List Bytes) (last : Option Bytes) : List (Bytes × Bool) :=
  chunks.map (fun bs => (bs, false)) ++ last.toList.map fun bs => (bs, true)

def verdictOn (psk : Bytes) (transparent : Bool) (bs : Bytes) (fin : Bool) : Outcome :=
  match examine psk transparent bs with
  | .accept r dest => .start dest r
  | .reject => .reset
  | .more => if fin then .drop else .wait

namespace Authentication

variable {psk : Bytes} {transparent : Bool}

/-! ## The cuts do not matter -/

structure Fresh (s : QuictunStream) (bs : Bytes) (fin : Bool) : Prop where
  readable : s.readable = bs
  fin : s.fin = fin
  notStopped : s.readingStopped = false
  writeOpen : s.writeSideClosed = false
  noRst : s.rstSent = false
  readClosed : s.readSideClosed = true → s.fin = true ∧ s.readable = []

def Reflects (psk : Bytes) (transparent : Bool) (bs : Bytes) (fin : Bool) : Authentication → Prop
  | .reading buf s => fin = false ∧ buf = bs ∧ examine psk transparent bs = .more ∧ Fresh s [] false
  | .started leftover dest s => ∃ rest, examine psk transparent bs = .accept (leftover ++ rest) dest ∧ Fresh s rest fin
  | .rejected => examine psk transparent bs = .reject
  | .dropped s => fin = true ∧ examine psk transparent bs = .more ∧ Fresh s [] true

variable {bs : Bytes} {fin : Bool}

theorem Reflects.outcome_eq {p : Authentication} (h : Reflects psk transparent bs fin p) :
    p.outcome = verdictOn psk transparent bs fin := by
  cases p with
  | reading buf s =>
    obtain ⟨rfl, -, he, -⟩ := h
    simp [outcome, verdictOn, he]
  | started leftover dest s =>
    obtain ⟨rest, he, hs⟩ := h
    simp [outcome, verdictOn, he, hs.readable]
  | rejected => simp [outcome, verdictOn, show examine psk transparent bs = .reject from h]
  | dropped s =>
    obtain ⟨rfl, he, -⟩ := h
    simp [outcome, verdictOn, he]

theorem Fresh.read {s : QuictunStream} {bs : Bytes} {fin : Bool} (h : Fresh s bs fin) (n : Nat) :
    (s.read n).1 = bs.take n ∧ (s.read n).2.1 = (fin && (bs.drop n).isEmpty) ∧
      Fresh (s.read n).2.2.1 (bs.drop n) fin ∧ (s.read n).2.2.2 = false := by
  obtain ⟨rfl, rfl, hstop, hw, hr, hc⟩ := h
  unfold QuictunStream.read
  by_cases hf : (s.fin && (s.readable.drop n).isEmpty) = true
  · rw [if_pos hf]
    obtain ⟨hfin, he⟩ := Bool.and_eq_true_iff.1 hf
    have he' := isEmpty_iff.1 he
    refine ⟨rfl, hf.symm, ?_, ?_⟩
    · unfold QuictunStream.closeReadSide
      split
      · exact ⟨rfl, rfl, hstop, hw, hr, fun _ => ⟨hfin, he'⟩⟩
      · exact ⟨he'.symm, hf.trans hfin.symm, hstop, hw, hr, fun _ => ⟨hf, rfl⟩⟩
    · unfold QuictunStream.closeReadSide
      split
      · rfl
      · exact hw
  · rw [if_neg hf]
    refine ⟨rfl, (Bool.not_eq_true _ ▸ hf).symm, ⟨rfl, rfl, hstop, hw, hr, fun h => ?_⟩, rfl⟩
    obtain ⟨hfin, he⟩ := hc h
    exact ⟨hfin, by rw [he, drop_nil]⟩

variable {n : Nat}

theorem drop_shorter (hn : bs.length < n + 1) (hne : ¬ (bs.take kKeyReadSize).isEmpty = true) :
    (bs.drop kKeyReadSize).length < n := by
  have hpos : 0 < bs.length := by
    apply Nat.pos_of_ne_zero
    intro h0
    rw [length_eq_zero_iff.1 h0] at hne
    exact hne rfl
  have hk : kKeyReadSize = 512 := rfl
  rw [length_drop]
  omega

/-- The loop reads everything, or stops with a decision that more bytes do not change. -/
theorem loop_reflects : ∀ {n : Nat} {buf bs : Bytes} {fin : Bool} {s : QuictunStream}, bs.length < n → Fresh s bs fin →
    Reflects psk transparent (buf ++ bs) fin (loop psk transparent n buf s)
  | 0, _, _, _, _, hn, _ => absurd hn (Nat.not_lt_zero _)
  | n + 1, buf, bs, fin, s, hn, hs => by
    obtain ⟨hdata, hfin, hnext, -⟩ := hs.read kKeyReadSize
    have hcut : buf ++ bs = buf ++ bs.take kKeyReadSize ++ bs.drop kKeyReadSize := by
      rw [append_assoc, take_append_drop]
    unfold loop
    simp only [hdata, hfin]
    split
    next he =>
      rw [hcut]
      exact examine_reject_append he _
    next leftover dest he =>
      refine ⟨bs.drop kKeyReadSize, ?_, hnext⟩
      rw [hcut]
      exact examine_accept_append he _
    next he =>
      split
      next hempty =>
        obtain rfl : bs = [] := by
          have := isEmpty_iff.1 hempty
          cases bs with
          | nil => rfl
          | cons b t => cases this
        rw [take_nil, append_nil] at he
        rw [append_nil]
        cases fin with
        | true => exact ⟨rfl, he, hnext⟩
        | false => exact ⟨rfl, rfl, he, hnext⟩
      next hne =>
        rw [hcut]
        exact loop_reflects (drop_shorter hn hne) hnext

theorem Fresh.onStreamFrame {s : QuictunStream} {bs : Bytes} (h : Fresh s bs false) (data : Bytes) (fin : Bool) :
    s.onStreamFrame data fin = ({ s with readable := bs ++ data, fin := fin },
      if data.isEmpty && !fin then none else some .dataAvailable) ∧
    Fresh (s.onStreamFrame data fin).1 (bs ++ data) fin := by
  have hopen : s.readSideClosed = false := by
    cases hc : s.readSideClosed with
    | false => rfl
    | true =>
      have := (h.readClosed hc).1
      rw [h.fin] at this
      cases this
  have heq : s.onStreamFrame data fin = ({ s with readable := bs ++ data, fin := fin },
      if data.isEmpty && !fin then none else some .dataAvailable) := by
    unfold QuictunStream.onStreamFrame
    rw [hopen, h.fin, h.notStopped, h.readable]
    rfl
  refine ⟨heq, ?_⟩
  rw [heq]
  exact ⟨rfl, rfl, h.notStopped, h.writeOpen, h.noRst, fun hc => absurd hc (by rw [hopen]; decide)⟩

theorem arrive_reading (buf : Bytes) (s : QuictunStream) (data : Bytes) (fin : Bool) :
    arrive psk transparent (.reading buf s) (data, fin) =
      if (s.onStreamFrame data fin).2 = some .dataAvailable
      then onStreamDataAvailable psk transparent buf (s.onStreamFrame data fin).1
      else .reading buf (s.onStreamFrame data fin).1 := rfl

theorem Reflects.arrive {bs : Bytes} {p : Authentication} (h : Reflects psk transparent bs false p)
    (data : Bytes) (fin : Bool) : Reflects psk transparent (bs ++ data) fin (p.arrive psk transparent (data, fin)) := by
  cases p with
  | reading buf s =>
    obtain ⟨-, rfl, he, hs⟩ := h
    obtain ⟨heq, hs'⟩ := hs.onStreamFrame data fin
    rw [nil_append] at heq hs'
    rw [arrive_reading, heq]
    rw [heq] at hs'
    by_cases hnone : (data.isEmpty && !fin) = true
    · obtain ⟨hd, hf⟩ := Bool.and_eq_true_iff.1 hnone
      obtain rfl := isEmpty_iff.1 hd
      obtain rfl : fin = false := by simpa using hf
      rw [if_pos hnone, if_neg nofun, append_nil]
      exact ⟨rfl, rfl, he, hs'⟩
    · rw [if_neg hnone, if_pos rfl]
      exact loop_reflects (Nat.lt_succ_self _) hs'
  | started leftover dest s =>
    obtain ⟨rest, he, hs⟩ := h
    refine ⟨rest ++ data, ?_, (hs.onStreamFrame data fin).2⟩
    rw [← append_assoc]
    exact examine_accept_append he data
  | rejected =>
    have he : examine psk transparent bs = .reject := h
    exact examine_reject_append he data
  | dropped s => exact absurd h.1 (by decide)

theorem reflects_new : Reflects psk transparent [] false (.reading [] {}) :=
  ⟨rfl, rfl, examine_short (by decide), ⟨rfl, rfl, rfl, rfl, rfl, nofun⟩⟩

theorem reflects_chunks : ∀ (chunks : List Bytes) {bs : Bytes} {p : Authentication},
    Reflects psk transparent bs false p →
    Reflects psk transparent (bs ++ chunks.flatten) false
      ((chunks.map fun bs => (bs, false)).foldl (arrive psk transparent) p)
  | [], bs, p, h => by rwa [flatten_nil, append_nil]
  | c :: chunks, bs, p, h => by
    rw [flatten_cons, ← append_assoc]
    exact reflects_chunks chunks (h.arrive c false)

theorem reflects_arrivals (chunks : List Bytes) (last : Option Bytes) :
    Reflects psk transparent (chunks.flatten ++ last.getD []) last.isSome
      (arrivals psk transparent (framesOf chunks last)) := by
  have h := reflects_chunks chunks (@reflects_new psk transparent)
  unfold arrivals framesOf
  rw [foldl_append]
  cases last with
  | none =>
    rw [Option.getD_none, append_nil]
    exact h
  | some bs => exact h.arrive bs true

theorem outcome_arrivals (chunks : List Bytes) (last : Option Bytes) :
    (arrivals psk transparent (framesOf chunks last)).outcome =
      verdictOn psk transparent (chunks.flatten ++ last.getD []) last.isSome :=
  (reflects_arrivals chunks last).outcome_eq

/-! ## The connection does this for each of its streams -/

def Shows (c : QuictunServerConnection) (id : Nat) : Authentication → Prop
  | .reading buf s => c.streams id = some s ∧ c.delegates id = some .owner ∧ c.keyReadBuffers id = some buf ∧
      c.streamTargets id = none
  | .started leftover dest s => c.streams id = some s ∧ c.delegates id = some .tunnel ∧ c.keyReadBuffers id = none ∧
      c.streamTargets id = some { pendingSeedData := leftover, dest := dest }
  | .rejected => c.streams id = none ∧ c.keyReadBuffers id = none ∧ c.streamTargets id = none
  | .dropped s => c.streams id = some s ∧ c.delegates id = some .owner ∧ c.keyReadBuffers id = none ∧
      c.streamTargets id = none

structure Open (psk : Bytes) (transparent : Bool) (c : QuictunServerConnection) : Prop where
  key : c.expectedPsk = psk
  mode : c.transparent = transparent
  notClosed : c.closed = false

structure Follows (psk : Bytes) (transparent : Bool) (id : Nat) (p : Authentication) (c : QuictunServerConnection) :
    Prop extends Open psk transparent c where
  shows_ : Shows c id p

def IsStarted (p : Authentication) : Prop := ∃ leftover dest s, p = .started leftover dest s

/-- The code runs on from `c` until only `rest` is left to do, and then stream `id` stands as in `p`; no call it
makes on the way fails, and no target appears on the way unless `p` has one. -/
def Reaches (psk : Bytes) (transparent : Bool) (id : Nat) (rest : List Op) (p : Authentication)
    (c : QuictunServerConnection) : Prop :=
  ∃ n c', Lts.run QuictunServerConnection.step c (replicate n (.exec {})) = some c' ∧ c'.todo = rest ∧
    Follows psk transparent id p c' ∧
    ∀ k m, k ≤ n → Lts.run QuictunServerConnection.step c (replicate k (.exec {})) = some m →
      m.streamTargets id ≠ none → p.IsStarted

variable {id : Nat} {c : QuictunServerConnection} {rest : List Op} {p : Authentication}

theorem Follows.isStarted (h : Follows psk transparent id p c) (ht : c.streamTargets id ≠ none) : p.IsStarted := by
  have hs := h.shows_
  cases p with
  | reading | dropped => exact absurd hs.2.2.2 ht
  | started leftover dest s => exact ⟨leftover, dest, s, rfl⟩
  | rejected => exact absurd hs.2.2 ht

theorem Follows.reaches (h : Follows psk transparent id p c) (ht : c.todo = rest) :
    Reaches psk transparent id rest p c := by
  refine ⟨0, c, rfl, ht, h, ?_⟩
  intro k m hk hm
  obtain rfl := Nat.le_zero.1 hk
  cases hm
  exact h.isStarted

variable {m : QuictunServerConnection}

theorem Reaches.of_step (h : c.step (.exec {}) = some m)
    (htg : c.streamTargets id ≠ none → p.IsStarted) (hr : Reaches psk transparent id rest p m) :
    Reaches psk transparent id rest p c := by
  obtain ⟨n, c', hn, ht, hf, hpath⟩ := hr
  refine ⟨n + 1, c', Lts.run_cons.2 ⟨m, h, hn⟩, ht, hf, ?_⟩
  intro k m' hk hm'
  cases k with
  | zero =>
    cases hm'
    exact htg
  | succ k =>
    obtain ⟨m₁, h1, hr1⟩ := Lts.run_cons.1 hm'
    obtain rfl : m = m₁ := Option.some.inj (h.symm.trans h1)
    exact hpath k m' (Nat.le_of_succ_le_succ hk) hr1

theorem Reaches.of_exec {op : Op} {ops : List Op} (ht : c.todo = op :: ops)
    (he : { c with todo := ops }.exec {} op = m) (htg : c.streamTargets id ≠ none → p.IsStarted)
    (hr : Reaches psk transparent id rest p m) : Reaches psk transparent id rest p c := by
  refine hr.of_step ?_ htg
  unfold step
  rw [ht, ← he]

variable {s : QuictunStream}

theorem reaches_started {leftover : Bytes} {dest : Option QuicSocketAddress}
    (ho : Open psk transparent c) (hs : c.streams id = some s) (hb : c.keyReadBuffers id = none)
    (ht : c.todo = .startTunnelForStream id leftover dest :: rest) :
    Reaches psk transparent id rest (.started leftover dest s) c := by
  have hstart : (started leftover dest s).IsStarted := ⟨_, _, _, rfl⟩
  apply Reaches.of_exec ht rfl fun _ => hstart
  apply Reaches.of_exec rfl rfl fun _ => hstart
  apply Follows.reaches _ rfl
  exact ⟨{ ho with }, hs, update_self id _ _, hb, update_self id _ _⟩

theorem reset_gone (hw : s.writeSideClosed = false) (hr : s.rstSent = false) : s.reset.2 = true := by
  unfold QuictunStream.reset QuictunStream.closeReadSide QuictunStream.maybeSendRstStream QuictunStream.closeWriteSide
  cases s.readSideClosed <;> simp [hw, hr]

theorem exec_reject (hs : c.streams id = some s) (hgone : s.reset.2 = true) :
    c.exec {} (.reject id) = (c.setStream id s.reset.1).push [.onStreamGone id] := by
  simp only [exec, reset, hs, afterCall, hgone]
  rfl

theorem exec_onStreamGone (hd : c.delegates id = some .owner) :
    c.exec {} (.onStreamGone id) = (c.forgetStream id).setBuffer id none := by
  simp only [exec, onStreamGone, hd]

variable {buf : Bytes}

theorem exec_onStreamDataAvailable (hopen : c.closed = false) (hb : c.keyReadBuffers id = some buf)
    (hs : c.streams id = some s) :
    c.exec {} (.onStreamDataAvailable id) = c.push [.read id] := by
  simp only [QuictunServerConnection.exec, QuictunServerConnection.onStreamDataAvailable, hopen, hb, hs]
  rfl

theorem exec_read (hs : c.streams id = some s) (hgone : (s.read kKeyReadSize).2.2.2 = false) :
    c.exec {} (.read id) = (c.setStream id (s.read kKeyReadSize).2.2.1).push
      [.afterRead id (s.read kKeyReadSize).1 (s.read kKeyReadSize).2.1] := by
  simp only [QuictunServerConnection.exec, QuictunServerConnection.read, hs, QuictunServerConnection.afterCall, hgone]
  rfl

theorem reaches_rejected (ho : Open psk transparent c) (hs : c.streams id = some s)
    (hd : c.delegates id = some .owner) (htg : c.streamTargets id = none) (hw : s.writeSideClosed = false)
    (hr : s.rstSent = false)
    (ht : c.todo = .reject id :: .eraseKeyReadBuffer id :: rest) : Reaches psk transparent id rest .rejected c := by
  apply Reaches.of_exec ht (exec_reject hs (reset_gone hw hr)) (absurd htg)
  -- both sides are closed now, so the stream goes, and the owner is still its delegate
  refine Reaches.of_exec rfl (exec_onStreamGone ?_) (absurd htg) ?_
  · exact hd
  · refine Reaches.of_exec rfl rfl (absurd htg) ?_
    apply Follows.reaches _ rfl
    exact ⟨{ ho with }, update_self id _ _, update_self id _ _, htg⟩

section
variable {buf data : Bytes} {fin : Bool} {s : QuictunStream} (hf : Follows psk transparent id (.reading buf s) c)
  (ht : c.todo = .afterRead id data fin :: rest)
include hf ht

theorem reaches_afterRead_reject (he : examine psk transparent (buf ++ data) = .reject)
    (hw : s.writeSideClosed = false) (hr : s.rstSent = false) : Reaches psk transparent id rest .rejected c := by
  obtain ⟨⟨rfl, rfl, hopen⟩, hs, hd, hb, htg⟩ := hf
  apply Reaches.of_exec ht rfl (absurd htg)
  simp only [exec, afterRead, hb, he]
  exact reaches_rejected ⟨rfl, rfl, hopen⟩ hs hd htg hw hr rfl

theorem reaches_afterRead_accept {leftover : Bytes} {dest : Option QuicSocketAddress}
    (he : examine psk transparent (buf ++ data) = .accept leftover dest) :
    Reaches psk transparent id rest (.started leftover dest s) c := by
  obtain ⟨⟨rfl, rfl, hopen⟩, hs, hd, hb, htg⟩ := hf
  apply Reaches.of_exec ht rfl (absurd htg)
  simp only [exec, afterRead, hb, he]
  exact reaches_started ⟨rfl, rfl, hopen⟩ hs (update_self id _ _) rfl

theorem reaches_afterRead_end (he : examine psk transparent (buf ++ data) = .more) (hempty : data.isEmpty = true) :
    Reaches psk transparent id rest (if fin then .dropped s else .reading buf s) c := by
  obtain ⟨⟨rfl, rfl, hopen⟩, hs, hd, hb, htg⟩ := hf
  apply Reaches.of_exec ht rfl (absurd htg)
  simp only [exec, afterRead, hb, he]
  rw [if_pos hempty]
  apply Follows.reaches _ rfl
  cases fin with
  | true | false => exact ⟨⟨rfl, rfl, hopen⟩, hs, hd, update_self id _ _, htg⟩

theorem exec_afterRead_more (he : examine psk transparent (buf ++ data) = .more) (hne : ¬ data.isEmpty = true) :
    ∃ c', c.step (.exec {}) = some c' ∧ Follows psk transparent id (.reading (buf ++ data) s) c' ∧
      c'.todo = .read id :: rest := by
  obtain ⟨⟨rfl, rfl, hopen⟩, hs, hd, hb, htg⟩ := hf
  refine ⟨((c.pop rest).setBuffer id (some (buf ++ data))).push [.read id], ?_,
    ⟨⟨rfl, rfl, hopen⟩, hs, hd, update_self id _ _, htg⟩, rfl⟩
  unfold step
  rw [ht]
  simp only [exec, afterRead, hb, he]
  rw [if_neg hne]

end

/-- The operations of the connection, from a `Read()` of the loop on, are the loop. -/
theorem reaches_loop : ∀ {n : Nat} {buf bs : Bytes} {fin : Bool} {s : QuictunStream} {c : QuictunServerConnection},
    bs.length < n → Fresh s bs fin → Follows psk transparent id (.reading buf s) c → c.todo = .read id :: rest →
      Reaches psk transparent id rest (loop psk transparent n buf s) c
  | 0, _, _, _, _, _, hn, _, _, _ => absurd hn (Nat.not_lt_zero _)
  | n + 1, buf, bs, fin, s, c, hn, hs, hf, ht => by
    obtain ⟨ho, hstream, hd, hbuf, htg⟩ := hf
    obtain ⟨hdata, hfin, hnext, hgone⟩ := hs.read kKeyReadSize
    apply Reaches.of_exec ht (exec_read hstream hgone) (absurd htg)
    have hf' : Follows psk transparent id (.reading buf (s.read kKeyReadSize).2.2.1)
        (((c.pop rest).setStream id (s.read kKeyReadSize).2.2.1).push
          [.afterRead id (s.read kKeyReadSize).1 (s.read kKeyReadSize).2.1]) :=
      ⟨{ ho with }, update_self id _ _, hd, hbuf, htg⟩
    unfold loop
    simp only
    split
    next he => exact reaches_afterRead_reject hf' rfl he hnext.writeOpen hnext.noRst
    next leftover dest he => exact reaches_afterRead_accept hf' rfl he
    next he =>
      split
      next hempty => exact reaches_afterRead_end hf' rfl he hempty
      next hne =>
        obtain ⟨c', hc', hf'', ht'⟩ := exec_afterRead_more hf' rfl he hne
        refine Reaches.of_step hc' (absurd htg) (reaches_loop ?_ hnext hf'' ht')
        exact drop_shorter hn (hdata ▸ hne)

theorem reaches_onStreamDataAvailable (hs : Fresh s bs fin)
    (hf : Follows psk transparent id (.reading buf s) c) (ht : c.todo = .onStreamDataAvailable id :: rest) :
    Reaches psk transparent id rest (onStreamDataAvailable psk transparent buf s) c := by
  obtain ⟨ho, hstream, hd, hb, htg⟩ := hf
  obtain rfl := hs.readable
  refine Reaches.of_exec ht (exec_onStreamDataAvailable ho.notClosed hb hstream) (absurd htg) ?_
  refine reaches_loop (Nat.lt_succ_self _) hs ⟨{ ho with }, hstream, hd, hb, htg⟩ rfl

/-! ### A frame, and all of them -/

theorem notified_dataAvailable (hd : c.delegates id = some .owner) :
    c.notified id (s, some .dataAvailable) = (c.setStream id s).push [.onStreamDataAvailable id] := by
  simp only [notified, hd, if_pos]

theorem reaches_arrive (hf : Follows psk transparent id p c) (ht : c.todo = [])
    (hr : Reflects psk transparent bs false p) (hlive : p ≠ .rejected) (data : Bytes) (fin : Bool) :
    ∃ m, c.step (.streamFrame id data fin) = some m ∧
      Reaches psk transparent id [] (p.arrive psk transparent (data, fin)) m := by
  obtain ⟨ho, hsh⟩ := hf
  have hstep : ∀ s, c.streams id = some s →
      c.step (.streamFrame id data fin) = some (c.notified id (s.onStreamFrame data fin)) := fun s hs => by
    simp only [step, ht, deliver, hs, Option.map_some, if_pos]
  cases p with
  | reading buf s =>
    obtain ⟨hs, hd, hb, htg⟩ := hsh
    obtain ⟨-, rfl, -, hfresh⟩ := hr
    obtain ⟨heq, hfresh'⟩ := hfresh.onStreamFrame data fin
    refine ⟨_, hstep s hs, ?_⟩
    rw [arrive_reading]
    split at heq
    · rw [heq, if_neg nofun]
      refine Follows.reaches ?_ ht
      exact ⟨{ ho with }, update_self id _ _, hd, hb, htg⟩
    · rw [heq] at hfresh' ⊢
      rw [notified_dataAvailable hd, if_pos rfl]
      refine reaches_onStreamDataAvailable hfresh' ?_ (congrArg _ ht)
      exact ⟨{ ho with }, update_self id _ _, hd, hb, htg⟩
  | started leftover dest s =>
    obtain ⟨hs, hd, hb, htg⟩ := hsh
    obtain ⟨rest, -, hfresh⟩ := hr
    obtain ⟨heq, -⟩ := hfresh.onStreamFrame data fin
    refine ⟨_, hstep s hs, ?_⟩
    unfold arrive
    have hquiet : c.notified id (s.onStreamFrame data fin) = c.setStream id (s.onStreamFrame data fin).1 := by
      rw [heq]
      split
      · rfl
      · simp only [notified, hd]
        rfl
    rw [hquiet]
    refine Follows.reaches ?_ ht
    exact ⟨{ ho with }, update_self id _ _, hd, hb, htg⟩
  | rejected => exact absurd rfl hlive
  | dropped s => exact absurd hr.1 (by decide)

def bytesOf (id : Nat) (es : List Ev) : Bytes :=
  es.flatMap fun e => match e with | .streamFrame i bs _ => if i = id then bs else [] | _ => []

def deliveries (es : List Ev) : List Ev := es.filter fun e => match e with | .exec _ => false | _ => true

def frameEvents (id : Nat) (frames : List (Bytes × Bool)) : List Ev := frames.map fun f => .streamFrame id f.1 f.2

theorem bytesOf_execs (id n : Nat) (a : Answer) : bytesOf id (replicate n (.exec a)) = [] := by
  simp [bytesOf]

theorem deliveries_execs (n : Nat) (a : Answer) : deliveries (replicate n (.exec a)) = [] := by
  simp [deliveries]

def NoEarlyTarget (psk : Bytes) (transparent : Bool) (id : Nat) (c : QuictunServerConnection) (es : List Ev) : Prop :=
  ∀ es₁ m, es₁ <+: es → Lts.run QuictunServerConnection.step c es₁ = some m → m.streamTargets id ≠ none →
    ∃ dest r, Complete psk transparent (bytesOf id es₁) dest r

theorem bytesOf_append_execs (id : Nat) (es : List Ev) (e : Ev) (n : Nat) :
    bytesOf id (es ++ e :: replicate n (.exec {})) = bytesOf id (es ++ [e]) := by
  have h : es ++ e :: replicate n (.exec {}) = es ++ [e] ++ replicate n (.exec {}) := by
    rw [append_assoc, singleton_append]
  rw [h, bytesOf, flatMap_append]
  exact (congrArg _ (bytesOf_execs id n {})).trans (append_nil _)

variable {e : Ev}

theorem deliveries_append_execs (he : deliveries [e] = [e]) (es : List Ev) (n : Nat) :
    deliveries (es ++ e :: replicate n (.exec {})) = deliveries es ++ [e] := by
  have h : es ++ e :: replicate n (.exec {}) = es ++ ([e] ++ replicate n (.exec {})) := rfl
  rw [h, deliveries, filter_append, filter_append]
  exact congrArg _ ((congrArg₂ _ he (deliveries_execs n {})).trans (append_nil _))

variable {es : List Ev} {c' : QuictunServerConnection}

theorem NoEarlyTarget.append
    (h : NoEarlyTarget psk transparent id c es) (hrun : Lts.run QuictunServerConnection.step c es = some c')
    (hstep : c'.step e = some m)
    (hpath : ∀ k m', k ≤ n → Lts.run QuictunServerConnection.step m (replicate k (.exec {})) = some m' →
      m'.streamTargets id ≠ none → ∃ dest r, Complete psk transparent (bytesOf id (es ++ [e])) dest r) :
    NoEarlyTarget psk transparent id c (es ++ e :: replicate n (.exec {})) := by
  intro es₁ m' hpre hrun' htg
  obtain ⟨t, ht⟩ := hpre
  rcases append_eq_append_iff.1 ht with ⟨u, rfl, -⟩ | ⟨es₂, rfl, hu⟩
  · exact h es₁ m' (prefix_append es₁ u) hrun' htg
  · cases es₂ with
    | nil =>
      rw [append_nil] at hrun' ⊢
      exact h es m' (prefix_refl es) hrun' htg
    | cons e' es₂ =>
      obtain ⟨rfl, hu'⟩ := cons.inj hu
      obtain ⟨k, hk, rfl⟩ : ∃ k, k ≤ n ∧ es₂ = replicate k (.exec {}) := by
        have hpre := prefix_iff_eq_take.1 ⟨t, hu'.symm⟩
        rw [take_replicate] at hpre
        exact ⟨_, Nat.min_le_right _ _, hpre⟩
      obtain ⟨c₁, hc1, hr1⟩ := Lts.run_append.1 hrun'
      obtain rfl : c' = c₁ := Option.some.inj (hrun.symm.trans hc1)
      obtain ⟨m₁, hm1, hr2⟩ := Lts.run_cons.1 hr1
      obtain rfl : m = m₁ := Option.some.inj (hstep.symm.trans hm1)
      rw [bytesOf_append_execs]
      exact hpath k m' hk hr2 htg

/-- The connection has come from `c` to `c'` by the events `es`, which deliver `offered` as long as the stream lives. -/
structure Served (psk : Bytes) (transparent : Bool) (id : Nat) (c : QuictunServerConnection) (offered : List Ev)
    (bs : Bytes) (fin : Bool) (p : Authentication) (es : List Ev) (c' : QuictunServerConnection) : Prop where
  run : Lts.run QuictunServerConnection.step c es = some c'
  idle : c'.todo = []
  follows : Follows psk transparent id p c'
  reflects : Reflects psk transparent bs fin p
  answers : ∀ a, Ev.exec a ∈ es → a = {}
  delivered : deliveries es <+: offered
  all : p ≠ .rejected → deliveries es = offered ∧ bytesOf id es = bs
  noEarlyTarget : NoEarlyTarget psk transparent id c es

theorem served_new (ho : Open psk transparent c)
    (hconn : c.connected = true) (hidle : c.todo = []) (hid : id ∉ c.ids) (htg : c.streamTargets id = none) :
    ∃ es c', Served psk transparent id c [.newStream id] [] false (.reading [] {}) es c' := by
  obtain ⟨m, hm, ht, hf⟩ : ∃ m, c.step (.newStream id) = some m ∧ m.todo = [.onStreamDataAvailable id] ∧
      Follows psk transparent id (.reading [] {}) m := by
    refine ⟨{ c with
      ids := c.ids ++ [id]
      streams := update c.streams id (some {})
      delegates := update c.delegates id (some .owner)
      keyReadBuffers := update c.keyReadBuffers id (some [])
      todo := [.onStreamDataAvailable id] }, ?_, rfl, { ho with }, update_self id _ _, update_self id _ _,
        update_self id _ _, htg⟩
    simp [step, hidle, deliver, hid, hconn, setStream, setBuffer, push, ho.notClosed]
  obtain ⟨n, c', hn, hidle', hf', hpath⟩ :=
    reaches_onStreamDataAvailable ⟨rfl, rfl, rfl, rfl, rfl, fun h => by cases h⟩ hf ht
  refine ⟨[] ++ .newStream id :: replicate n (.exec {}), c',
    ⟨Lts.run_cons.2 ⟨m, hm, hn⟩, hidle', hf', reflects_new, ?_, ?_, ?_, ?_⟩⟩
  · intro a ha
    simp at ha
    exact ha.2
  · exact ⟨[], (append_nil _).trans (deliveries_append_execs rfl [] n)⟩
  · intro _
    exact ⟨deliveries_append_execs rfl [] n, bytesOf_append_execs id [] _ n⟩
  · refine NoEarlyTarget.append ?_ rfl hm ?_
    · intro es₁ m' hpre hrun hne
      obtain rfl := prefix_nil.1 hpre
      cases hrun
      exact absurd htg hne
    · intro k m' hk hrun hne
      obtain ⟨_, _, _, ⟨⟩⟩ := hpath k m' hk hrun hne

theorem Served.frame {offered : List Ev} (h : Served psk transparent id c offered bs false p es c') (data : Bytes)
    (fin : Bool) :
    ∃ es' d, Served psk transparent id c (offered ++ [.streamFrame id data fin]) (bs ++ data) fin
      (p.arrive psk transparent (data, fin)) es' d := by
  have hr' := h.reflects.arrive data fin
  by_cases hlive : p = .rejected
  · subst hlive
    exact ⟨es, c', { h with
      reflects := hr'
      delivered := h.delivered.trans (prefix_append _ _)
      all := fun hne => absurd rfl hne }⟩
  · obtain ⟨m, hm, n, d, hn, hidle', hf', hpath⟩ := reaches_arrive h.follows h.idle h.reflects hlive data fin
    obtain ⟨hall, hbytes⟩ := h.all hlive
    have hd : deliveries (es ++ .streamFrame id data fin :: replicate n (.exec {})) =
        offered ++ [.streamFrame id data fin] := by
      rw [deliveries_append_execs rfl, hall]
    have hb : bytesOf id (es ++ [.streamFrame id data fin]) = bs ++ data := by
      rw [bytesOf, flatMap_append]
      exact congrArg₂ _ hbytes (by simp)
    refine ⟨es ++ .streamFrame id data fin :: replicate n (.exec {}), d,
      ⟨Lts.run_append.2 ⟨c', h.run, Lts.run_cons.2 ⟨m, hm, hn⟩⟩, hidle', hf', hr', ?_, ?_, ?_, ?_⟩⟩
    · intro a ha
      rcases mem_append.1 ha with ha | ha
      · exact h.answers a ha
      · simp at ha
        exact ha.2
    · exact ⟨[], (append_nil _).trans hd⟩
    · intro _
      exact ⟨hd, (bytesOf_append_execs id es _ n).trans hb⟩
    · refine h.noEarlyTarget.append h.run hm ?_
      intro k m' hk hrun hne
      obtain ⟨leftover, dest, s, hp⟩ := hpath k m' hk hrun hne
      rw [hp] at hr'
      obtain ⟨rest, he, -⟩ := hr'
      rw [hb]
      exact ⟨dest, _, examine_accept_iff.1 he⟩

theorem Served.chunks : ∀ (chunks : List Bytes) {offered : List Ev} {bs : Bytes} {p : Authentication} {es : List Ev}
    {c' : QuictunServerConnection}, Served psk transparent id c offered bs false p es c' →
      ∃ es' d, Served psk transparent id c (offered ++ frameEvents id (chunks.map fun bs => (bs, false)))
        (bs ++ chunks.flatten) false ((chunks.map fun bs => (bs, false)).foldl (arrive psk transparent) p) es' d
  | [], offered, bs, p, es, c', h => ⟨es, c', by simpa [frameEvents] using h⟩
  | data :: chunks, offered, bs, p, es, c', h => by
    obtain ⟨es₁, c₁, h1⟩ := h.frame data false
    obtain ⟨es₂, c₂, h2⟩ := Served.chunks chunks h1
    exact ⟨es₂, c₂, by simpa [frameEvents, append_assoc] using h2⟩

theorem serve_arrivals (ho : Open psk transparent c)
    (hconn : c.connected = true) (hidle : c.todo = []) (hid : id ∉ c.ids) (htg : c.streamTargets id = none)
    (chunks : List Bytes) (last : Option Bytes) :
    ∃ es c', Served psk transparent id c (.newStream id :: frameEvents id (framesOf chunks last))
      (chunks.flatten ++ last.getD []) last.isSome (arrivals psk transparent (framesOf chunks last)) es c' := by
  obtain ⟨es, c', h⟩ := served_new ho hconn hidle hid htg
  obtain ⟨es₁, c₁, h1⟩ := h.chunks chunks
  unfold arrivals framesOf
  rw [foldl_append]
  cases last with
  | none => exact ⟨es₁, c₁, by simpa using h1⟩
  | some bs =>
    obtain ⟨es₂, c₂, h2⟩ := h1.frame bs true
    exact ⟨es₂, c₂, by simpa [frameEvents] using h2⟩

end Authentication

/-! ## Results -/

def QuictunServerConnection.outcome (c : QuictunServerConnection) (id : Nat) : Outcome :=
  match c.streamTargets id, c.keyReadBuffers id, c.streams id with
  | some t, _, s => .start t.dest (t.pendingSeedData ++ (s.map QuictunStream.readable).getD [])
  | none, some _, _ => .wait
  | none, none, some _ => .drop
  | none, none, none => .reset

variable {psk : Bytes} {transparent : Bool}

theorem Authentication.Follows.outcome_eq {id : Nat} {p : Authentication}
    {c : QuictunServerConnection} (h : Follows psk transparent id p c) : c.outcome id = p.outcome := by
  have hs := h.shows_
  cases p with
  | reading buf s =>
    obtain ⟨-, -, hb, ht⟩ := hs
    simp [QuictunServerConnection.outcome, hb, ht, outcome]
  | started leftover dest s =>
    obtain ⟨hs, -, -, ht⟩ := hs
    simp [QuictunServerConnection.outcome, hs, ht, outcome]
  | rejected =>
    obtain ⟨hs, hb, ht⟩ := hs
    simp [QuictunServerConnection.outcome, hs, hb, ht, outcome]
  | dropped s =>
    obtain ⟨hs, -, hb, ht⟩ := hs
    simp [QuictunServerConnection.outcome, hs, hb, ht, outcome]

variable {bs : Bytes} {fin : Bool}

theorem verdictOn_start {dest : Option QuicSocketAddress}
    {r : Bytes} : verdictOn psk transparent bs fin = .start dest r ↔ Complete psk transparent bs dest r := by
  rw [← examine_accept_iff, verdictOn]
  cases examine psk transparent bs with
  | accept r' dest' => simp [and_comm]
  | reject => simp
  | more => cases fin <;> simp

theorem verdictOn_reset : verdictOn psk transparent bs fin = .reset ↔ Refused psk transparent bs := by
  rw [← examine_reject_iff, verdictOn]
  cases examine psk transparent bs with
  | accept | reject => simp
  | more => cases fin <;> simp

theorem verdictOn_otherwise (fin : Bool)
    (hc : ∀ dest r, ¬ Complete psk transparent bs dest r) (hr : ¬ Refused psk transparent bs) :
    verdictOn psk transparent bs fin = if fin then .drop else .wait := by
  rw [verdictOn]
  cases he : examine psk transparent bs with
  | accept r dest => exact absurd (examine_accept_iff.1 he) (hc dest r)
  | reject => exact absurd (examine_reject_iff.1 he) hr
  | more => rfl

open Authentication in
theorem decision_ignores_cuts (c : QuictunServerConnection) (id : Nat) (hopen : c.closed = false)
    (hconn : c.connected = true) (hidle : c.todo = []) (hid : id ∉ c.ids) (htg : c.streamTargets id = none)
    (chunks : List Bytes) (last : Option Bytes) (s : Bytes) (hs : s = chunks.flatten ++ last.getD []) :
    ∃ es c', Lts.run QuictunServerConnection.step c es = some c' ∧ c'.todo = [] ∧
      (∀ a, Ev.exec a ∈ es → a = {}) ∧
      deliveries es <+: .newStream id :: frameEvents id (framesOf chunks last) ∧
      (c'.streams id ≠ none → deliveries es = .newStream id :: frameEvents id (framesOf chunks last)) ∧
      (∀ dest r, c'.outcome id = .start dest r ↔ Complete c.expectedPsk c.transparent s dest r) ∧
      (c'.outcome id = .reset ↔ Refused c.expectedPsk c.transparent s) ∧
      ((∀ dest r, ¬ Complete c.expectedPsk c.transparent s dest r) → ¬ Refused c.expectedPsk c.transparent s →
        c'.outcome id = if last.isSome then .drop else .wait) ∧
      NoEarlyTarget c.expectedPsk c.transparent id c es := by
  subst hs
  obtain ⟨es, c', h⟩ := serve_arrivals ⟨rfl, rfl, hopen⟩ hconn hidle hid htg chunks last
  have ho : c'.outcome id = verdictOn c.expectedPsk c.transparent (chunks.flatten ++ last.getD []) last.isSome :=
    h.follows.outcome_eq.trans (outcome_arrivals chunks last)
  refine ⟨es, c', h.run, h.idle, h.answers, h.delivered, ?_, ?_, ?_, ?_, h.noEarlyTarget⟩
  · intro hlive
    refine (h.all ?_).1
    intro hp
    have hsh := h.follows.shows_
    rw [hp] at hsh
    exact hlive hsh.1
  · intro dest r
    rw [ho]
    exact verdictOn_start
  · rw [ho]
    exact verdictOn_reset
  · intro hc hr
    rw [ho]
    exact verdictOn_otherwise _ hc hr

theorem decision_ignores_cuts_inLength : ∃ es c',
    Lts.run QuictunServerConnection.step (QuictunServerConnection.init [107] false) es = some c' ∧
      c'.outcome 0 = .start none [7] := by
  obtain ⟨es, c', hrun, -, -, -, -, hstart, -⟩ := decision_ignores_cuts (init [107] false) 0
    rfl rfl rfl not_mem_nil rfl [[0], [1, 107]] (some [7]) _ rfl
  refine ⟨es, c', hrun, (hstart none [7]).2 ?_⟩
  exact ⟨1, [107], [], by decide, rfl, rfl, ⟨rfl, rfl⟩, rfl⟩

end Quictun
