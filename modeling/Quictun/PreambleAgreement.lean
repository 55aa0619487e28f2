import Quictun.Authentication

/-!
# Client and server agree on the preamble

What `QuictunClientConnection::StartTunnel` puts in front of the payload, fed to the
server's authentication. The length field has 16 bits and neither binary limits the
key, so the two ends agree exactly as far as the key's length fits, `KeysAgree`.
-/

namespace Quictun

open List

def preamble (psk : Bytes) (capturedDest : Option QuicSocketAddress) : Bytes :=
  be16 psk.length ++ psk ++
    match capturedDest with
    | none => []
    | some dest => (if dest.ip.length = 16 then 4 else 1) :: dest.ip ++ be16 dest.port

def QuicSocketAddress.Valid (a : QuicSocketAddress) : Prop := (a.ip.length = 4 ∨ a.ip.length = 16) ∧ a.port < 65536

def connectTo (transparent : Bool) (targetAddress dest : Option QuicSocketAddress) : Option QuicSocketAddress :=
  if transparent then dest else targetAddress

variable {capturedDest : Option QuicSocketAddress}

theorem isHeader_preamble (hd : ∀ d ∈ capturedDest, d.Valid) (psk : Bytes) :
    ∃ h, preamble psk capturedDest = be16 psk.length ++ psk ++ h ∧ IsHeader capturedDest.isSome h capturedDest := by
  cases capturedDest with
  | none => exact ⟨[], rfl, rfl, rfl⟩
  | some dest =>
    obtain ⟨hlen, hport⟩ := hd dest rfl
    refine ⟨_, rfl, _, _, _, hport, ?_, rfl, rfl⟩
    rcases hlen with h | h <;> rw [h] <;> rfl

theorem examine_preamble_self (hd : ∀ d ∈ capturedDest, d.Valid) {psk : Bytes} (hk : psk.length < 65536)
    (payload : Bytes) :
    examine psk capturedDest.isSome (preamble psk capturedDest ++ payload) = .accept payload capturedDest := by
  obtain ⟨h, hpre, hh⟩ := isHeader_preamble hd psk
  rw [hpre]
  exact examine_accept_iff.2 ⟨_, psk, h, hk, rfl, rfl, hh, rfl⟩

theorem examine_preamble_other (capturedDest : Option QuicSocketAddress) {k₁ k₂ : Bytes} (hk : k₁.length < 65536)
    (hne : k₁ ≠ k₂) (transparent : Bool) (payload : Bytes) :
    examine k₂ transparent (preamble k₁ capturedDest ++ payload) = .reject := by
  unfold preamble
  rw [append_assoc]
  exact examine_mismatch hk hne _

/-! ## Keys that do not fit -/

/-- The server takes a long key for this one: what its length field says of it, followed in transparent mode by
what looks like an address. -/
def TakenFor (transparent : Bool) (k₁ k₂ : Bytes) : Prop :=
  k₁.take (k₁.length % 65536) = k₂ ∧
    (transparent = true → ∃ atyp, k₁[k₁.length % 65536]? = some atyp ∧ (atyp = 1 ∨ atyp = 4))

def KeysAgree (transparent : Bool) (k₁ k₂ : Bytes) : Prop :=
  k₁.length < 65536 ∨ (k₁ ≠ k₂ ∧ ¬ TakenFor transparent k₁ k₂)

section
variable {k₁ : Bytes} (hlong : 65536 ≤ k₁.length)
include hlong

theorem preamble_long (capturedDest : Option QuicSocketAddress) (payload : Bytes) :
    ∃ atyp t, k₁[k₁.length % 65536]? = some atyp ∧ 18 ≤ t.length ∧
      preamble k₁ capturedDest ++ payload =
        be16 (k₁.take (k₁.length % 65536)).length ++ k₁.take (k₁.length % 65536) ++ atyp :: t := by
  have hlt : k₁.length % 65536 < k₁.length := by omega
  have hlen : (k₁.take (k₁.length % 65536)).length = k₁.length % 65536 := by
    rw [length_take]
    omega
  have hcut : k₁ = k₁.take (k₁.length % 65536) ++ k₁[k₁.length % 65536] :: k₁.drop (k₁.length % 65536 + 1) := by
    rw [← drop_eq_getElem_cons hlt, take_append_drop]
  generalize hhdr : (match capturedDest with
    | none => ([] : Bytes)
    | some dest => (if dest.ip.length = 16 then 4 else 1) :: dest.ip ++ be16 dest.port) = hdr
  refine ⟨k₁[k₁.length % 65536], k₁.drop (k₁.length % 65536 + 1) ++ hdr ++ payload, getElem?_eq_getElem hlt, ?_, ?_⟩
  · simp only [length_append, length_drop]
    omega
  · have hpre : preamble k₁ capturedDest = be16 k₁.length ++ k₁ ++ hdr := by
      rw [← hhdr]
      rfl
    rw [hpre, hlen, be16_mod]
    nth_rewrite 2 [hcut]
    simp only [append_assoc, cons_append]

theorem accepts_long (capturedDest : Option QuicSocketAddress) (payload : Bytes) (transparent : Bool) (k₂ : Bytes) :
    (∃ r dest, examine k₂ transparent (preamble k₁ capturedDest ++ payload) = .accept r dest) ↔
      TakenFor transparent k₁ k₂ := by
  obtain ⟨atyp, t, hatyp, ht, hpre⟩ := preamble_long hlong capturedDest payload
  have hfit : (k₁.take (k₁.length % 65536)).length < 65536 := by
    rw [length_take]
    omega
  rw [hpre, TakenFor, hatyp]
  by_cases hkey : k₁.take (k₁.length % 65536) = k₂
  · subst hkey
    cases transparent with
    | false =>
      rw [examine_target hfit]
      simp
    | true =>
      cases ha : addrLen atyp with
      | none =>
        rw [examine_badAtyp hfit ha]
        have := addrLen_none.1 ha
        simp [this]
      | some n =>
        have hn := addrLen_cases ha
        rcases header_cases (n := n) t with hshort | ⟨ip, port, u, rfl, hp, rfl⟩
        · omega
        · have hok : atyp = 1 ∨ atyp = 4 := by
            by_contra hno
            rw [not_or] at hno
            rw [addrLen_none.2 hno] at ha
            cases ha
          have he := examine_header hfit hp ha u
          simp only [cons_append] at he
          rw [he]
          simp [hok]
  · rw [examine_mismatch hfit hkey]
    simp [hkey]

theorem takenFor_ne {transparent : Bool} {k₂ : Bytes} (h : TakenFor transparent k₁ k₂) : k₁ ≠ k₂ := by
  rintro rfl
  have hlen := congrArg length h.1
  rw [length_take] at hlen
  omega

end

/-! ## Agreement -/

def Agreement (capturedDest targetAddress : Option QuicSocketAddress) (k₁ k₂ payload : Bytes) (o : Outcome) : Prop :=
  ((∃ dest r, o = .start dest r) ↔ k₁ = k₂) ∧
  ∀ dest r, o = .start dest r →
    connectTo capturedDest.isSome targetAddress dest = (if capturedDest.isSome then capturedDest else targetAddress) ∧
      r = payload

variable {k₁ : Bytes}

theorem agreement_of_fit (hd : ∀ d ∈ capturedDest, d.Valid)
    (targetAddress : Option QuicSocketAddress) (hk : k₁.length < 65536) (k₂ payload : Bytes) (fin : Bool) :
    Agreement capturedDest targetAddress k₁ k₂ payload
      (verdictOn k₂ capturedDest.isSome (preamble k₁ capturedDest ++ payload) fin) := by
  unfold verdictOn
  by_cases hkey : k₁ = k₂
  · subst hkey
    rw [examine_preamble_self hd hk]
    refine ⟨⟨fun _ => rfl, fun _ => ⟨_, _, rfl⟩⟩, ?_⟩
    intro dest r h
    cases h
    exact ⟨rfl, rfl⟩
  · rw [examine_preamble_other capturedDest hk hkey]
    refine ⟨⟨?_, fun h => absurd h hkey⟩, ?_⟩
    · rintro ⟨dest, r, h⟩
      cases h
    · intro dest r h
      cases h

theorem agreement_of_long (capturedDest targetAddress : Option QuicSocketAddress)
    (hlong : 65536 ≤ k₁.length) (k₂ payload : Bytes) (fin : Bool) : Agreement capturedDest targetAddress k₁ k₂ payload
      (verdictOn k₂ capturedDest.isSome (preamble k₁ capturedDest ++ payload) fin) ↔
        k₁ ≠ k₂ ∧ ¬ TakenFor capturedDest.isSome k₁ k₂ := by
  have hstart : (∃ dest r, verdictOn k₂ capturedDest.isSome (preamble k₁ capturedDest ++ payload) fin = .start dest r) ↔
      TakenFor capturedDest.isSome k₁ k₂ := by
    rw [← accepts_long hlong capturedDest payload]
    simp only [verdictOn_start, examine_accept_iff]
    exact exists_comm
  unfold Agreement
  rw [hstart]
  constructor
  · rintro ⟨hiff, -⟩
    have hno : ¬ TakenFor capturedDest.isSome k₁ k₂ := fun h => takenFor_ne hlong h (hiff.1 h)
    exact ⟨fun h => hno (hiff.2 h), hno⟩
  · rintro ⟨hne, hno⟩
    refine ⟨⟨fun h => absurd h hno, fun h => absurd h hne⟩, ?_⟩
    intro dest r h
    exact absurd (hstart.1 ⟨dest, r, h⟩) hno

theorem preamble_agreement (capturedDest targetAddress : Option QuicSocketAddress)
    (hd : ∀ d ∈ capturedDest, d.Valid) (k₁ k₂ payload : Bytes) (chunks : List Bytes) (last : Option Bytes)
    (hs : chunks.flatten ++ last.getD [] = preamble k₁ capturedDest ++ payload) :
    Agreement capturedDest targetAddress k₁ k₂ payload
        (Authentication.arrivals k₂ capturedDest.isSome (framesOf chunks last)).outcome ↔
      KeysAgree capturedDest.isSome k₁ k₂ := by
  rw [Authentication.outcome_arrivals, hs]
  by_cases hk : k₁.length < 65536
  · have h := agreement_of_fit hd targetAddress hk k₂ payload last.isSome
    exact ⟨fun _ => .inl hk, fun _ => h⟩
  · rw [agreement_of_long capturedDest targetAddress (Nat.le_of_not_lt hk), KeysAgree]
    simp [hk]

theorem preamble_agreement_ipv4 : Agreement (some ⟨[10, 0, 0, 1], 443⟩) none [107] [107] [7]
      (Authentication.arrivals [107] true (framesOf [preamble [107] (some ⟨[10, 0, 0, 1], 443⟩)] (some [7]))).outcome :=
  (preamble_agreement (some ⟨[10, 0, 0, 1], 443⟩) none (fun d h => by
    cases h
    exact ⟨.inl rfl, by decide⟩) [107] [107] [7] [preamble [107] (some ⟨[10, 0, 0, 1], 443⟩)] (some [7]) rfl).2
    (.inl (by decide))

/-- Both ends have the same key of 65536 bytes. The length field says 0. -/
theorem long_key_rejected : (Authentication.arrivals (List.replicate 65536 107) false
      (framesOf [preamble (List.replicate 65536 107) none ++ [7]] none)).outcome = .reset := by
  rw [Authentication.outcome_arrivals, verdictOn_reset]
  refine ⟨0, [], replicate 65536 107 ++ [7], by decide, rfl, ?_, .inl ?_⟩
  · have hlen : be16 (replicate 65536 (107 : UInt8)).length = be16 0 := by
      rw [length_replicate]
      rfl
    simp only [preamble, flatten_cons, flatten_nil, append_nil, Option.getD_none, hlen, append_assoc]
  · intro h
    have hlen := congrArg length h
    rw [length_replicate] at hlen
    cases hlen

end Quictun
