import Mathlib.Data.Set.Card
import Mathlib.Order.Interval.Finset.Nat
import Quictun.QuicIntervalSetOps

/-!
# Counting the members of an interval set

The lengths of the intervals add up to the number of members, and the last interval bounds them.
-/

namespace Quictun

namespace QuicIntervalSet

theorem ncard_Ico (a b : Nat) : (Set.Ico a b).ncard = b - a := by
  rw [← Finset.coe_Ico, Set.ncard_coe_finset, Nat.card_Ico]

theorem points_cons_eq (i : QuicInterval Nat) (s : QuicIntervalSet Nat) :
    points (i :: s) = Set.Ico i.min i.max ∪ points s := by
  ext p
  rw [mem_points_cons, Set.mem_union, Set.mem_Ico]

theorem finite_points : ∀ s : QuicIntervalSet Nat, (points s).Finite
  | [] => by simp
  | i :: s => by
    rw [points_cons_eq]
    exact (Set.finite_Ico _ _).union (finite_points s)

variable {i : QuicInterval Nat} {s : QuicIntervalSet Nat}

theorem ncard_points_cons (h : Canonical (i :: s)) : (points (i :: s)).ncard = i.max - i.min + (points s).ncard := by
  obtain ⟨-, hapart, -⟩ := canonical_cons.1 h
  have hd : Disjoint (Set.Ico i.min i.max) (points s) := by
    rw [Set.disjoint_left]
    intro p hp hps
    have := lt_of_mem_points hapart hps
    exact absurd hp.2 (by omega)
  rw [points_cons_eq, Set.ncard_union_eq hd (Set.finite_Ico _ _) (finite_points s), ncard_Ico]

theorem foldl_length : ∀ {s : QuicIntervalSet Nat}, s.Canonical → ∀ n : Nat,
    s.foldl (fun n i => n + (i.max - i.min)) n = n + (points s).ncard
  | [], _, n => by simp
  | i :: s, h, n => by
    rw [List.foldl_cons, foldl_length (canonical_cons.1 h).2.2, ncard_points_cons h, add_assoc]

theorem lt_getLast_max (h : s.Canonical) (hi : s.getLast? = some i) {p : Nat} (hp : p ∈ points s) : p < i.max := by
  have hs := List.dropLast_append_getLast? i hi
  rw [← hs] at h hp
  obtain ⟨-, hc, hlt⟩ := canonical_append.1 h
  rcases mem_points_append.1 hp with ⟨j, hj, -, hpj⟩ | hp
  · have := hlt j hj i (List.mem_singleton.2 rfl)
    have := hc.nonempty i (List.mem_singleton.2 rfl)
    omega
  · exact (mem_points_singleton.1 hp).2

end QuicIntervalSet

end Quictun
