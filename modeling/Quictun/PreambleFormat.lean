import Quictun.Preamble

/-!
# The wire format of the preamble

`examine` decides on bytes that start with a two-byte length; `examine_be16` is that
decision with the length read off. From it follow what is accepted and what is
rejected, in terms of the format, and that a decision once made does not change when
more bytes come in.
-/

namespace Quictun

open List

def be16 (n : Nat) : Bytes := [UInt8.ofNat (n / 256), UInt8.ofNat (n % 256)]

@[simp] theorem be16_length (n : Nat) : (be16 n).length = 2 := rfl

variable {n : Nat}

theorem uint16At_be16 (hn : n < 65536) (pre t : Bytes) : uint16At (pre ++ be16 n ++ t) pre.length = n := by
  have h0 : (pre ++ be16 n ++ t).getD pre.length 0 = UInt8.ofNat (n / 256) := by
    simp [be16, getD_eq_getElem?_getD]
  have h1 : (pre ++ be16 n ++ t).getD (pre.length + 1) 0 = UInt8.ofNat (n % 256) := by
    simp [be16, getD_eq_getElem?_getD]
  rw [uint16At, h0, h1, UInt8.toNat_ofNat', UInt8.toNat_ofNat']
  omega

theorem be16_uint16 (a b : UInt8) : be16 (a.toNat * 256 + b.toNat) = [a, b] := by
  have ha := a.toNat_lt
  have hb := b.toNat_lt
  have h0 : (a.toNat * 256 + b.toNat) / 256 = a.toNat := by omega
  have h1 : (a.toNat * 256 + b.toNat) % 256 = b.toNat := by omega
  rw [be16, h0, h1, UInt8.ofNat_toNat, UInt8.ofNat_toNat]

theorem exists_be16 {bs : Bytes} (h : 2 ≤ bs.length) : ∃ n t, n < 65536 ∧ bs = be16 n ++ t := by
  match bs, h with
  | a :: b :: t, _ =>
    have ha := a.toNat_lt
    have hb := b.toNat_lt
    refine ⟨a.toNat * 256 + b.toNat, t, by omega, ?_⟩
    rw [be16_uint16]
    rfl

theorem be16_mod (n : Nat) : be16 (n % 65536) = be16 n := by
  have h0 : UInt8.ofNat (n % 65536 / 256) = UInt8.ofNat (n / 256) := by
    apply UInt8.toNat_inj.1
    rw [UInt8.toNat_ofNat', UInt8.toNat_ofNat']
    omega
  have h1 : n % 65536 % 256 = n % 256 := by omega
  rw [be16, be16, h0, h1]

/-! ## The address header -/

def IsHeader : Bool → Bytes → Option QuicSocketAddress → Prop
  | false, h, dest => h = [] ∧ dest = none
  | true, h, dest => ∃ atyp ip port, port < 65536 ∧ addrLen atyp = some ip.length ∧
      h = atyp :: ip ++ be16 port ∧ dest = some ⟨ip, port⟩

variable {atyp : UInt8}

theorem addrLen_cases (h : addrLen atyp = some n) : n = 4 ∨ n = 16 := by
  unfold addrLen at h
  split at h
  · exact .inl (Option.some.inj h).symm
  · split at h
    · exact .inr (Option.some.inj h).symm
    · cases h

theorem addrLen_none : addrLen atyp = none ↔ atyp ≠ 1 ∧ atyp ≠ 4 := by
  unfold addrLen
  split <;> simp_all

theorem parse_short {t : Bytes} (ha : addrLen atyp = some n) (ht : t.length < n + 2) :
    parseQuictunTransparentHeader (atyp :: t) = .incomplete := by
  simp only [parseQuictunTransparentHeader, ha]
  rw [if_pos (by rw [length_cons]; omega)]

theorem parse_header {ip : Bytes} {port : Nat} (hp : port < 65536) (ha : addrLen atyp = some ip.length)
    (t : Bytes) : parseQuictunTransparentHeader (atyp :: ip ++ be16 port ++ t) =
      .complete (1 + ip.length + 2) ⟨ip, port⟩ := by
  have hip : fromPackedString ip = some ip := if_pos (addrLen_cases ha)
  have hport : uint16At (atyp :: ip ++ be16 port ++ t) (1 + ip.length) = port := by
    rw [Nat.add_comm]
    exact uint16At_be16 hp (atyp :: ip) t
  rw [append_assoc] at hport
  simp only [append_assoc, cons_append, parseQuictunTransparentHeader, ha]
  rw [if_neg (by simp; omega), take_left, hip]
  simp only [cons_append] at hport
  rw [hport]

theorem header_cases (t : Bytes) : t.length < n + 2 ∨ ∃ ip port u, ip.length = n ∧ port < 65536 ∧
    t = ip ++ be16 port ++ u := by
  by_cases ht : t.length < n + 2
  · exact .inl ht
  · right
    have hlen : 2 ≤ (t.drop n).length := by
      rw [length_drop]
      omega
    obtain ⟨port, u, hp, hu⟩ := exists_be16 hlen
    refine ⟨t.take n, port, u, ?_, hp, ?_⟩
    · rw [length_take]
      omega
    · rw [append_assoc, ← hu, take_append_drop]

/-! ## The decision -/

section
variable {psk : Bytes} {transparent : Bool}

theorem examine_short {buf : Bytes} (h : buf.length < 2) : examine psk transparent buf = .more := if_pos h

def examineHeader (transparent : Bool) (t : Bytes) : Verdict :=
  if transparent then
    match parseQuictunTransparentHeader t with
    | .invalid => .reject
    | .incomplete => .more
    | .complete headerLength destination => .accept (t.drop headerLength) (some destination)
  else .accept t none

variable {n : Nat}

theorem examine_be16 (hn : n < 65536) (t : Bytes) : examine psk transparent (be16 n ++ t) = if t.length < n then .more
    else if t.take n ≠ psk then .reject else examineHeader transparent (t.drop n) := by
  have hkey : uint16At (be16 n ++ t) 0 = n := uint16At_be16 hn [] t
  have hdrop : ∀ k, (be16 n ++ t).drop (2 + k) = t.drop k := fun k => by
    rw [← drop_drop]
    rfl
  have hdrop0 : (be16 n ++ t).drop 2 = t := hdrop 0
  have hlen : (be16 n ++ t).length = 2 + t.length := by rw [length_append, be16_length]
  unfold examine
  simp only [hkey, hlen, hdrop, hdrop0, Nat.add_assoc]
  rw [if_neg (by omega)]
  by_cases ht : t.length < n
  · rw [if_pos (by omega), if_pos ht]
  · rw [if_neg (by omega), if_neg ht]
    by_cases hne : t.take n ≠ psk
    · rw [if_pos hne, if_pos hne]
    · rw [if_neg hne, if_neg hne]
      cases transparent with
      | false => rfl
      | true => cases hp : parseQuictunTransparentHeader (t.drop n) <;> simp [examineHeader, hp]

theorem examine_waits (hn : n < 65536) {t : Bytes} (ht : t.length < n) :
    examine psk transparent (be16 n ++ t) = .more := by
  rw [examine_be16 hn, if_pos ht]

theorem examine_mismatch {k : Bytes} (hk : k.length < 65536) (hne : k ≠ psk) (t : Bytes) :
    examine psk transparent (be16 k.length ++ k ++ t) = .reject := by
  rw [append_assoc, examine_be16 hk, if_neg (by simp), take_left, if_pos hne]

section
variable (hpsk : psk.length < 65536)
include hpsk

theorem examine_key (t : Bytes) :
    examine psk transparent (be16 psk.length ++ psk ++ t) = examineHeader transparent t := by
  rw [append_assoc, examine_be16 hpsk, if_neg (by simp), take_left, if_neg (by simp), drop_left]

theorem examine_target (t : Bytes) : examine psk false (be16 psk.length ++ psk ++ t) = .accept t none := by
  rw [examine_key hpsk]
  rfl

variable {atyp : UInt8}

theorem examine_header {ip : Bytes} {port : Nat} (hp : port < 65536) (ha : addrLen atyp = some ip.length) (t : Bytes) :
    examine psk true (be16 psk.length ++ psk ++ (atyp :: ip ++ be16 port ++ t)) = .accept t (some ⟨ip, port⟩) := by
  rw [examine_key hpsk, examineHeader, if_pos rfl, parse_header hp ha]
  have hd : (atyp :: ip ++ be16 port ++ t).drop (1 + ip.length + 2) = t := by
    rw [drop_left']
    rw [length_append, length_cons, be16_length]
    omega
  simp only [hd]

theorem examine_badAtyp (ha : addrLen atyp = none) (t : Bytes) :
    examine psk true (be16 psk.length ++ psk ++ atyp :: t) = .reject := by
  rw [examine_key hpsk, examineHeader, if_pos rfl]
  simp only [parseQuictunTransparentHeader, ha]

theorem examine_shortHeader {n : Nat} (ha : addrLen atyp = some n) {t : Bytes} (ht : t.length < n + 2) :
    examine psk true (be16 psk.length ++ psk ++ atyp :: t) = .more := by
  rw [examine_key hpsk, examineHeader, if_pos rfl, parse_short ha ht]

end

inductive Form (psk : Bytes) : Bool → Bytes → Verdict → Prop
  | noLength {tr bs} : bs.length < 2 → Form psk tr bs .more
  | noKey {tr n t} : n < 65536 → t.length < n → Form psk tr (be16 n ++ t) .more
  | mismatch {tr k t} : k.length < 65536 → k ≠ psk → Form psk tr (be16 k.length ++ k ++ t) .reject
  | target {t} : psk.length < 65536 → Form psk false (be16 psk.length ++ psk ++ t) (.accept t none)
  | noAtyp : psk.length < 65536 → Form psk true (be16 psk.length ++ psk ++ []) .more
  | badAtyp {atyp t} : psk.length < 65536 → addrLen atyp = none →
    Form psk true (be16 psk.length ++ psk ++ atyp :: t) .reject
  | noAddress {atyp n t} : psk.length < 65536 → addrLen atyp = some n → t.length < n + 2 →
      Form psk true (be16 psk.length ++ psk ++ atyp :: t) .more
  | header {atyp ip port t} : psk.length < 65536 → port < 65536 → addrLen atyp = some ip.length →
      Form psk true (be16 psk.length ++ psk ++ (atyp :: ip ++ be16 port ++ t)) (.accept t (some ⟨ip, port⟩))

theorem form_of_header (hpsk : psk.length < 65536) (t : Bytes) :
    ∃ v, Form psk true (be16 psk.length ++ psk ++ t) v := by
  cases t with
  | nil => exact ⟨_, .noAtyp hpsk⟩
  | cons atyp t =>
    cases ha : addrLen atyp with
    | none => exact ⟨_, .badAtyp hpsk ha⟩
    | some n =>
      rcases header_cases (n := n) t with ht | ⟨ip, port, u, hip, hp, rfl⟩
      · exact ⟨_, .noAddress hpsk ha ht⟩
      · subst hip
        exact ⟨_, .header hpsk hp ha⟩

theorem exists_form (psk : Bytes) (transparent : Bool) (bs : Bytes) : ∃ v, Form psk transparent bs v := by
  by_cases h2 : bs.length < 2
  · exact ⟨_, .noLength h2⟩
  · obtain ⟨n, t, hn, rfl⟩ := exists_be16 (Nat.le_of_not_lt h2)
    by_cases ht : t.length < n
    · exact ⟨_, .noKey hn ht⟩
    · obtain ⟨k, u, hk, rfl⟩ : ∃ k u, k.length = n ∧ t = k ++ u :=
        ⟨t.take n, t.drop n, by rw [length_take]; omega, (take_append_drop n t).symm⟩
      subst hk
      rw [← append_assoc]
      by_cases hkey : k = psk
      · subst hkey
        cases transparent with
        | false => exact ⟨_, .target hn⟩
        | true => exact form_of_header hn u
      · exact ⟨_, .mismatch hn hkey⟩

variable {bs : Bytes}

theorem Form.examine_eq {v : Verdict} (h : Form psk transparent bs v) : examine psk transparent bs = v := by
  cases h with
  | noLength h => exact examine_short h
  | noKey hn ht => exact examine_waits hn ht
  | mismatch hk hne => exact examine_mismatch hk hne _
  | target hk => exact examine_target hk _
  | noAtyp hk => rw [examine_key hk]; rfl
  | badAtyp hk ha => exact examine_badAtyp hk ha _
  | noAddress hk ha ht => exact examine_shortHeader hk ha ht
  | header hk hp ha => exact examine_header hk hp ha _

theorem form_examine (psk : Bytes) (transparent : Bool) (bs : Bytes) :
    Form psk transparent bs (examine psk transparent bs) := by
  obtain ⟨v, hv⟩ := exists_form psk transparent bs
  rwa [hv.examine_eq]

def Complete (psk : Bytes) (transparent : Bool) (bs : Bytes) (dest : Option QuicSocketAddress) (r : Bytes) : Prop :=
  ∃ n k h, n < 65536 ∧ k.length = n ∧ k = psk ∧ IsHeader transparent h dest ∧ bs = be16 n ++ k ++ h ++ r

def Refused (psk : Bytes) (transparent : Bool) (bs : Bytes) : Prop :=
  ∃ n k t, n < 65536 ∧ k.length = n ∧ bs = be16 n ++ k ++ t ∧
    (k ≠ psk ∨ transparent = true ∧ ∃ atyp u, t = atyp :: u ∧ atyp ≠ 1 ∧ atyp ≠ 4)

variable {r : Bytes} {dest : Option QuicSocketAddress}

theorem examine_accept_iff : examine psk transparent bs = .accept r dest ↔ Complete psk transparent bs dest r := by
  constructor
  · intro he
    have hf := form_examine psk transparent bs
    rw [he] at hf
    cases hf with
    | target hk => exact ⟨_, psk, [], hk, rfl, rfl, ⟨rfl, rfl⟩, by rw [append_nil]⟩
    | header hk hp ha =>
      exact ⟨_, psk, _, hk, rfl, rfl, ⟨_, _, _, hp, ha, rfl, rfl⟩, by simp only [append_assoc]⟩
  · rintro ⟨n, k, h, hk, rfl, rfl, hh, rfl⟩
    cases transparent with
    | false =>
      obtain ⟨rfl, rfl⟩ := hh
      rw [append_nil]
      exact examine_target hk r
    | true =>
      obtain ⟨atyp, ip, port, hp, ha, rfl, rfl⟩ := hh
      rw [append_assoc]
      exact examine_header hk hp ha r

theorem examine_reject_iff : examine psk transparent bs = .reject ↔ Refused psk transparent bs := by
  constructor
  · intro he
    have hf := form_examine psk transparent bs
    rw [he] at hf
    cases hf with
    | mismatch hk hne => exact ⟨_, _, _, hk, rfl, rfl, .inl hne⟩
    | badAtyp hk ha => exact ⟨_, _, _, hk, rfl, rfl, .inr ⟨rfl, _, _, rfl, addrLen_none.1 ha⟩⟩
  · rintro ⟨n, k, t, hk, rfl, rfl, hne⟩
    by_cases hkey : k = psk
    · subst hkey
      obtain ⟨rfl, atyp, u, rfl, ha⟩ := hne.resolve_left fun h => h rfl
      exact examine_badAtyp hk (addrLen_none.2 ha) u
    · exact examine_mismatch hk hkey t

theorem Complete.append (h : Complete psk transparent bs dest r)
    (t : Bytes) : Complete psk transparent (bs ++ t) dest (r ++ t) := by
  obtain ⟨n, k, hd, hn, hk, hkey, hh, rfl⟩ := h
  exact ⟨n, k, hd, hn, hk, hkey, hh, by simp only [append_assoc]⟩

theorem Refused.append (h : Refused psk transparent bs) (t : Bytes) : Refused psk transparent (bs ++ t) := by
  obtain ⟨n, k, u, hn, hk, rfl, hne⟩ := h
  refine ⟨n, k, u ++ t, hn, hk, by simp only [append_assoc], ?_⟩
  rcases hne with hne | ⟨htr, atyp, v, rfl, ha⟩
  · exact .inl hne
  · exact .inr ⟨htr, atyp, v ++ t, rfl, ha⟩

theorem examine_accept_append (h : examine psk transparent bs = .accept r dest) (t : Bytes) :
    examine psk transparent (bs ++ t) = .accept (r ++ t) dest :=
  examine_accept_iff.2 ((examine_accept_iff.1 h).append t)

theorem examine_reject_append (h : examine psk transparent bs = .reject) (t : Bytes) :
    examine psk transparent (bs ++ t) = .reject :=
  examine_reject_iff.2 ((examine_reject_iff.1 h).append t)

end

end Quictun
