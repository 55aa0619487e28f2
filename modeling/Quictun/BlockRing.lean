import Mathlib.Data.Nat.Basic

/-!
# A ring of blocks

A ring of `C` bytes that is cut into blocks of `K` bytes. The last block is shorter if `K` does not
divide `C`. An offset of an endless stream has its place at `p % C`.
-/

namespace BlockRing

section
variable (C K : Nat)

def count : Nat := (C + K - 1) / K

def index (p : Nat) : Nat := p % C / K

def inBlock (p : Nat) : Nat := p % C % K

def blockCapacity (i : Nat) : Nat := if i + 1 = count C K then (if C % K = 0 then K else C % K) else K

def room (p : Nat) : Nat := blockCapacity C K (index C K p) - inBlock C K p

end

variable {C K : Nat}

/-! ## Within one lap -/

theorem add_mod {p d : Nat} (hd : d < C) : (p + d) % C = if p % C + d < C then p % C + d else p % C + d - C := by
  have hp : p % C < C := Nat.mod_lt _ (by omega)
  rw [Nat.add_mod_eq_ite, Nat.mod_eq_of_lt hd]
  split <;> split <;> omega

theorem eq_of_mod_eq {p q : Nat} (h : p ≤ q) (hq : q < p + C) (he : p % C = q % C) : p = q := by
  obtain ⟨d, rfl⟩ := Nat.exists_eq_add_of_le h
  have hp : p % C < C := Nat.mod_lt _ (by omega)
  rw [add_mod (show d < C by omega)] at he
  split at he <;> omega

theorem eq_of_mod_eq_of_lap {r p q : Nat} (hp : r ≤ p) (hp' : p < r + C) (hq : r ≤ q) (hq' : q < r + C)
    (he : p % C = q % C) : p = q := by
  rcases Nat.le_total p q with hle | hle
  · exact eq_of_mod_eq hle (by omega) he
  · exact (eq_of_mod_eq hle (by omega) he.symm).symm

theorem mod_eq (p : Nat) : p % C = K * index C K p + inBlock C K p := (Nat.div_add_mod _ _).symm

theorem inBlock_lt (hK : 0 < K) (p : Nat) : inBlock C K p < K := Nat.mod_lt _ hK

/-! ## Blocks -/

section
variable (hC : 0 < C) (hK : 0 < K)
include hC hK

theorem count_spec : K * (count C K - 1) < C ∧ C ≤ K * count C K ∧ 0 < count C K := by
  have h1 := Nat.div_add_mod (C + K - 1) K
  have h2 := Nat.mod_lt (C + K - 1) hK
  have hpos : 0 < (C + K - 1) / K := Nat.div_pos (by omega) hK
  obtain ⟨b, hb⟩ := Nat.exists_eq_succ_of_ne_zero (ne_of_gt hpos)
  unfold count
  rw [hb, Nat.succ_eq_add_one, Nat.mul_add, Nat.mul_one] at h1 ⊢
  rw [Nat.add_sub_cancel]
  omega

theorem block_end {i : Nat} (hi : i < count C K) :
    K * i + blockCapacity C K i = if i + 1 = count C K then C else K * (i + 1) := by
  obtain ⟨h1, h2, -⟩ := count_spec hC hK
  unfold blockCapacity
  split
  next hl =>
    rw [← hl, Nat.add_sub_cancel] at h1
    rw [← hl, Nat.mul_add, Nat.mul_one] at h2
    obtain ⟨r, rfl⟩ := Nat.exists_eq_add_of_le (le_of_lt h1)
    rw [Nat.mul_add_mod]
    by_cases hr : r = K
    · rw [hr, Nat.mod_self, if_pos rfl]
    · rw [Nat.mod_eq_of_lt (show r < K by omega), if_neg (show r ≠ 0 by omega)]
  · rw [Nat.mul_add, Nat.mul_one]

theorem index_lt (p : Nat) : index C K p < count C K := by
  have h := (count_spec hC hK).2.1
  have hp : p % C < C := Nat.mod_lt _ hC
  rw [index, Nat.div_lt_iff_lt_mul hK, Nat.mul_comm]
  omega

theorem mod_add_room (p : Nat) : p % C + room C K p =
    (if index C K p + 1 = count C K then C else K * (index C K p + 1)) ∧ 0 < room C K p ∧ p % C + room C K p ≤ C := by
  have he := block_end hC hK (index_lt hC hK p)
  have hm := mod_eq (C := C) (K := K) p
  have hp : p % C < C := Nat.mod_lt _ hC
  have hb := inBlock_lt (C := C) hK p
  have hlast : ¬ index C K p + 1 = count C K → K * (index C K p + 1) ≤ C := by
    intro hl
    have h1 := (count_spec hC hK).1
    have h2 := index_lt hC hK p
    have h3 := Nat.mul_le_mul_left K (show index C K p + 1 ≤ count C K - 1 by omega)
    omega
  have h4 : K * (index C K p + 1) = K * index C K p + K := by rw [Nat.mul_add, Nat.mul_one]
  unfold room
  split at he
  next hl =>
    rw [if_pos hl]
    omega
  next hl =>
    rw [if_neg hl]
    have := hlast hl
    omega

theorem index_eq_of_lt {p d : Nat} (hd : d < room C K p) : (p + d) % C = p % C + d ∧
    index C K (p + d) = index C K p ∧ inBlock C K (p + d) = inBlock C K p + d := by
  obtain ⟨he, -, hle⟩ := mod_add_room hC hK p
  have hm := mod_eq (C := C) (K := K) p
  have hmod : (p + d) % C = p % C + d := by rw [add_mod (by omega), if_pos (by omega)]
  have hup : p % C + room C K p ≤ K * index C K p + K := by
    rw [he, ← Nat.mul_succ]
    split
    next hl =>
      rw [Nat.succ_eq_add_one, hl]
      exact (count_spec hC hK).2.1
    · exact le_rfl
  have hin : inBlock C K p + d < K := by omega
  refine ⟨hmod, ?_, ?_⟩
  · rw [index, hmod, hm, Nat.add_assoc, Nat.mul_add_div hK, Nat.div_eq_of_lt hin, Nat.add_zero]
  · rw [inBlock, hmod, hm, Nat.add_assoc, Nat.mul_add_mod, Nat.mod_eq_of_lt hin]

theorem next_block (p : Nat) : index C K (p + room C K p) = (index C K p + 1) % count C K ∧
    inBlock C K (p + room C K p) = 0 := by
  obtain ⟨he, hpos, hle⟩ := mod_add_room hC hK p
  have hp : p % C < C := Nat.mod_lt _ hC
  split at he
  next hl =>
    have hmod : (p + room C K p) % C = 0 := by
      by_cases h0 : room C K p < C
      · rw [add_mod h0, if_neg (by omega)]
        omega
      · have hr : room C K p = C := by omega
        rw [hr, Nat.add_mod_right]
        omega
    rw [index, inBlock, hmod, hl, Nat.mod_self, Nat.zero_div, Nat.zero_mod]
    exact ⟨rfl, rfl⟩
  · have hlt : p % C + room C K p < C := by
      have h1 := (count_spec hC hK).1
      have h2 := index_lt hC hK p
      have h3 := Nat.mul_le_mul_left K (show index C K p + 1 ≤ count C K - 1 by omega)
      omega
    have hmod : (p + room C K p) % C = K * (index C K p + 1) := by rw [add_mod (by omega), if_pos hlt, he]
    have hidx : index C K p + 1 < count C K := by
      have := index_lt hC hK p
      omega
    rw [inBlock, index, hmod, Nat.mul_div_cancel_left _ hK, Nat.mul_mod_right, Nat.mod_eq_of_lt hidx]
    exact ⟨rfl, rfl⟩

variable {p q : Nat}

theorem same_block (h : p ≤ q) (hq : q < p + C) (hi : index C K q = index C K p) :
    q < p + room C K p ∨ inBlock C K q < inBlock C K p := by
  obtain ⟨d, rfl⟩ := Nat.exists_eq_add_of_le h
  obtain ⟨he, -, -⟩ := mod_add_room hC hK p
  have hm := mod_eq (C := C) (K := K) p
  have hmq := mod_eq (C := C) (K := K) (p + d)
  have hp : p % C < C := Nat.mod_lt _ hC
  rw [hi] at hmq
  by_cases hd : d < room C K p
  · exact .inl (by omega)
  · right
    rw [add_mod (show d < C by omega)] at hmq
    split at hmq
    next hlt =>
      -- Without wrapping the offset would be in a later block.
      have hb := inBlock_lt (C := C) hK (p + d)
      split at he
      · omega
      · rw [Nat.mul_add, Nat.mul_one] at he
        omega
    · omega

theorem lt_room_iff (h : p ≤ q) (hq : q < p + C) :
    q < p + room C K p ↔ index C K q = index C K p ∧ inBlock C K p ≤ inBlock C K q := by
  constructor
  · intro hlt
    obtain ⟨d, rfl⟩ := Nat.exists_eq_add_of_le h
    obtain ⟨-, hi, ho⟩ := index_eq_of_lt hC hK (show d < room C K p by omega)
    exact ⟨hi, ho ▸ Nat.le_add_right _ _⟩
  · rintro ⟨hi, ho⟩
    exact (same_block hC hK h hq hi).resolve_right (not_lt.2 ho)

theorem index_eq_of_wrapped {p q r : Nat} (hi : index C K q = index C K p) (hin : inBlock C K q < inBlock C K p)
    (h : p ≤ q) (hqr : q ≤ r) (hr : r < p + C) : index C K r = index C K p := by
  obtain ⟨d, rfl⟩ := Nat.exists_eq_add_of_le hqr
  have hm := mod_eq (C := C) (K := K) p
  have hmq := mod_eq (C := C) (K := K) q
  have hroom : room C K q = room C K p + (inBlock C K p - inBlock C K q) := by
    have := (mod_add_room hC hK p).2.1
    unfold room at this ⊢
    rw [hi]
    omega
  -- The lap ends at the place of `p`, which is in the block, too.
  have hlap : q + (inBlock C K p - inBlock C K q) = p + C := by
    have hmod : (q + (inBlock C K p - inBlock C K q)) % C = (p + C) % C := by
      rw [Nat.add_mod_right, (index_eq_of_lt hC hK (show inBlock C K p - inBlock C K q < room C K q by
        have := (mod_add_room hC hK p).2.1
        omega)).1]
      rw [hi] at hmq
      omega
    have hle : inBlock C K p ≤ p % C := by rw [hm]; exact Nat.le_add_left _ _
    have hp : p % C < C := Nat.mod_lt _ hC
    rcases Nat.le_total (q + (inBlock C K p - inBlock C K q)) (p + C) with hlt | hgt
    · exact eq_of_mod_eq hlt (by omega) hmod
    · exact (eq_of_mod_eq hgt (by omega) hmod.symm).symm
  have hd : d < room C K q := by
    have := (mod_add_room hC hK p).2.1
    omega
  rw [(index_eq_of_lt hC hK hd).2.1, hi]

end

end BlockRing
