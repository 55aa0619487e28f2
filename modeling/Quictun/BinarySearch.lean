import Mathlib.Data.Nat.Basic

/-!
# Lower bounds by halving

`std::lower_bound` over a range of positions. The predicate has to be true on a first part of
the range and false on the rest; the search then returns where the rest begins.
-/

namespace BinarySearch

variable {p : Nat → Bool}

def loop (p : Nat → Bool) : Nat → Nat → Nat → Nat
  | 0, first, _ => first
  | fuel + 1, first, len =>
    if len = 0 then first
    else
      let half := len / 2
      if p (first + half) then loop p fuel (first + half + 1) (len - half - 1) else loop p fuel first half

def lowerBound (p : Nat → Bool) (first len : Nat) : Nat := loop p len first len

def Partitioned (p : Nat → Bool) (lo hi : Nat) : Prop :=
  ∀ i j, lo ≤ i → i ≤ j → j < hi → p j = true → p i = true

structure Splits (p : Nat → Bool) (lo hi k : Nat) : Prop where
  ge : lo ≤ k
  le : k ≤ hi
  before : ∀ i, lo ≤ i → i < k → p i = true
  after : ∀ i, k ≤ i → i < hi → p i = false

theorem splits_empty (p : Nat → Bool) (first : Nat) : Splits p first (first + 0) first :=
  ⟨le_rfl, le_rfl, fun i h1 h2 => by omega, fun i h1 h2 => by omega⟩

theorem splits_loop : ∀ {fuel first len : Nat}, len ≤ fuel → Partitioned p first (first + len) →
    Splits p first (first + len) (loop p fuel first len)
  | 0, first, len, hf, _ => by
    obtain rfl := Nat.le_zero.1 hf
    exact splits_empty p first
  | fuel + 1, first, len, hf, hp => by
    rw [loop]
    split
    next hlen =>
      rw [hlen]
      exact splits_empty p first
    next =>
    dsimp only
    by_cases hm : p (first + len / 2) = true
    · -- the boundary is behind the middle
      rw [if_pos hm]
      have hend : first + len / 2 + 1 + (len - len / 2 - 1) = first + len := by omega
      have ih := @splits_loop fuel (first + len / 2 + 1) (len - len / 2 - 1) (by omega) (by
        rw [hend]
        exact fun i j h1 h2 h3 => hp i j (by omega) h2 h3)
      rw [hend] at ih
      refine ⟨by have := ih.ge; omega, ih.le, fun i h1 h2 => ?_, ih.after⟩
      by_cases hi : i ≤ first + len / 2
      · exact hp i _ h1 hi (by omega) hm
      · exact ih.before i (by omega) h2
    · rw [if_neg hm]
      have ih := @splits_loop fuel first (len / 2) (by omega) fun i j h1 h2 h3 => hp i j h1 h2 (by omega)
      refine ⟨ih.ge, by have := ih.le; omega, ih.before, fun i h1 h2 => ?_⟩
      by_cases hi : i < first + len / 2
      · exact ih.after i h1 hi
      · rw [Bool.eq_false_iff]
        exact fun hpi => hm (hp _ i (by omega) (by omega) h2 hpi)

theorem splits_lowerBound {first len : Nat} (h : Partitioned p first (first + len)) :
    Splits p first (first + len) (lowerBound p first len) :=
  splits_loop (le_refl len) h

theorem Splits.eq {lo hi k i : Nat} (h : Splits p lo hi k) (hi' : i < hi) (hlo : lo ≤ i) (hf : p i = false)
    (hb : ∀ j, lo ≤ j → j < i → p j = true) : k = i := by
  have hle : k ≤ i := by
    by_contra hlt
    cases (h.before i hlo (by omega)).symm.trans hf
  have hge : i ≤ k := by
    by_contra hlt
    cases (h.after k (le_refl k) (by omega)).symm.trans (hb k h.ge (by omega))
  omega

end BinarySearch
