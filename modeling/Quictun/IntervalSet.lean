import Mathlib.Data.List.Basic
import Mathlib.Data.Nat.Basic
import Mathlib.Order.MinMax

/-!
# Interval sets

A set of natural numbers as the ascending list of its maximal intervals `[a, b)`.
`prefixEnd` is the first number not in the set, `sup` the end of the last interval.
-/

abbrev IntervalSet := List (Nat × Nat)

namespace IntervalSet

def add (a b : Nat) : IntervalSet → IntervalSet
  | [] => [(a, b)]
  | (c, d) :: l =>
    if b < c then (a, b) :: (c, d) :: l
    else if d < a then (c, d) :: add a b l
    else add (min a c) (max b d) l

def prefixEnd : IntervalSet → Nat
  | (0, b) :: _ => b
  | _ => 0

def sup : IntervalSet → Nat
  | [] => 0
  | [(_, b)] => b
  | _ :: l => sup l

def covers (a b : Nat) (l : IntervalSet) : Bool := l.any fun e => e.1 ≤ a && b ≤ e.2

def Canonical : IntervalSet → Prop
  | [] => True
  | e :: l => e.1 < e.2 ∧ (∀ f ∈ l, e.2 < f.1) ∧ Canonical l

variable {l : IntervalSet}

theorem sup_cons (e : Nat × Nat) (hl : l ≠ []) : sup (e :: l) = sup l := by
  cases l with
  | nil => exact absurd rfl hl
  | cons f l => rfl

theorem sup_le {n : Nat} : ∀ {l : IntervalSet}, (∀ e ∈ l, e.2 ≤ n) → sup l ≤ n
  | [], _ => Nat.zero_le n
  | [e], h => h e List.mem_cons_self
  | e :: f :: l, h => sup_le (l := f :: l) fun g hg => h g (List.mem_cons_of_mem e hg)

theorem le_sup : ∀ {l : IntervalSet}, Canonical l → ∀ e ∈ l, e.2 ≤ sup l
  | [e], _, f, hf => by
    rw [List.mem_singleton.1 hf]
    exact le_rfl
  | e :: f :: l, hc, g, hg => by
    have hs := le_sup hc.2.2
    rcases List.mem_cons.1 hg with rfl | hg
    · have h1 := hc.2.1 f List.mem_cons_self
      have h2 := hc.2.2.1
      have h3 := hs f List.mem_cons_self
      rw [sup_cons _ (List.cons_ne_nil f l)]
      omega
    · exact hs g hg

theorem prefixEnd_le_sup (hc : Canonical l) : prefixEnd l ≤ sup l := by
  unfold prefixEnd
  split
  · exact le_sup hc _ List.mem_cons_self
  · exact Nat.zero_le _

theorem mem_add : ∀ {l : IntervalSet} {a b : Nat} {e : Nat × Nat}, e ∈ add a b l →
    (e.1 = a ∨ ∃ f ∈ l, e.1 = f.1) ∧ (e.2 = b ∨ ∃ f ∈ l, e.2 = f.2)
  | [], a, b, e, he => by
    rw [add, List.mem_singleton] at he
    rw [he]
    exact ⟨.inl rfl, .inl rfl⟩
  | (c, d) :: l, a, b, e, he => by
    rw [add] at he
    split at he
    · rcases List.mem_cons.1 he with rfl | he
      · exact ⟨.inl rfl, .inl rfl⟩
      · exact ⟨.inr ⟨e, he, rfl⟩, .inr ⟨e, he, rfl⟩⟩
    split at he
    · rcases List.mem_cons.1 he with rfl | he
      · exact ⟨.inr ⟨_, List.mem_cons_self, rfl⟩, .inr ⟨_, List.mem_cons_self, rfl⟩⟩
      · obtain ⟨h1, h2⟩ := mem_add he
        exact ⟨h1.imp_right fun ⟨f, hf, h⟩ => ⟨f, List.mem_cons_of_mem _ hf, h⟩,
          h2.imp_right fun ⟨f, hf, h⟩ => ⟨f, List.mem_cons_of_mem _ hf, h⟩⟩
    · obtain ⟨h1, h2⟩ := mem_add he
      constructor
      · rcases h1 with h | ⟨f, hf, h⟩
        · rcases min_choice a c with hm | hm
          · exact .inl (h.trans hm)
          · exact .inr ⟨_, List.mem_cons_self, h.trans hm⟩
        · exact .inr ⟨f, List.mem_cons_of_mem _ hf, h⟩
      · rcases h2 with h | ⟨f, hf, h⟩
        · rcases max_choice b d with hm | hm
          · exact .inl (h.trans hm)
          · exact .inr ⟨_, List.mem_cons_self, h.trans hm⟩
        · exact .inr ⟨f, List.mem_cons_of_mem _ hf, h⟩

variable {n : Nat}

theorem add_le {a b : Nat} (hl : ∀ e ∈ l, e.2 ≤ n) (hb : b ≤ n) : ∀ e ∈ add a b l, e.2 ≤ n := by
  intro e he
  rcases (mem_add he).2 with h | ⟨f, hf, h⟩
  · rw [h]
    exact hb
  · rw [h]
    exact hl f hf

theorem canonical_add : ∀ {l : IntervalSet} {a b : Nat}, a < b → Canonical l → Canonical (add a b l)
  | [], a, b, hab, _ => ⟨hab, fun f hf => absurd hf List.not_mem_nil, trivial⟩
  | (c, d) :: l, a, b, hab, hc => by
    rw [add]
    split
    next hbc =>
      refine ⟨hab, fun f hf => ?_, hc⟩
      rcases List.mem_cons.1 hf with rfl | hf
      · exact hbc
      · have h1 := hc.2.1 f hf
        have h2 := hc.1
        simp only at h1 h2 ⊢
        omega
    split
    next hda =>
      refine ⟨hc.1, fun f hf => ?_, canonical_add hab hc.2.2⟩
      rcases (mem_add hf).1 with h | ⟨g, hg, h⟩
      · rw [h]
        exact hda
      · rw [h]
        exact hc.2.1 g hg
    · exact canonical_add (lt_of_le_of_lt (min_le_left a c) (lt_of_lt_of_le hab (le_max_left b d))) hc.2.2

theorem le_prefixEnd_add_zero : ∀ {l : IntervalSet} {b : Nat}, b ≤ prefixEnd (add 0 b l)
  | [], b => le_refl b
  | (c, d) :: l, b => by
    rw [add]
    split
    · exact le_refl b
    split
    next h => exact absurd h (Nat.not_lt_zero d)
    · rw [Nat.zero_min]
      exact le_trans (le_max_left b d) le_prefixEnd_add_zero

theorem prefixEnd_le_add (a b : Nat) (l : IntervalSet) : prefixEnd l ≤ prefixEnd (add a b l) := by
  match l with
  | [] => exact Nat.zero_le _
  | (c + 1, d) :: l => exact Nat.zero_le _
  | (0, d) :: l =>
    rw [add, if_neg (Nat.not_lt_zero b)]
    split
    · exact le_refl d
    · rw [Nat.min_zero]
      exact le_trans (le_max_right b d) le_prefixEnd_add_zero

/-! ## The numbers of a set -/

def contains (n : Nat) (l : IntervalSet) : Bool := l.any fun e => e.1 ≤ n && n < e.2

theorem contains_cons (n : Nat) (e : Nat × Nat) (l : IntervalSet) :
    contains n (e :: l) = true ↔ (e.1 ≤ n ∧ n < e.2) ∨ contains n l = true := by
  simp [contains]

theorem contains_iff : contains n l = true ↔ ∃ e ∈ l, e.1 ≤ n ∧ n < e.2 := by
  simp [contains]

theorem contains_add {n : Nat} : ∀ {l : IntervalSet} {a b : Nat}, a ≤ b → Canonical l →
    (contains n (add a b l) = true ↔ (a ≤ n ∧ n < b) ∨ contains n l = true)
  | [], a, b, _, _ => by simp [add, contains]
  | (c, d) :: l, a, b, hab, hc => by
    rw [add]
    by_cases hbc : b < c
    · rw [if_pos hbc, contains_cons]
    by_cases hda : d < a
    · rw [if_neg hbc, if_pos hda, contains_cons, contains_cons, contains_add hab hc.2.2]
      tauto
    · -- the two intervals meet or touch, so nothing between them is added
      have hcd : c < d := hc.1
      rw [if_neg hbc, if_neg hda, contains_cons, contains_add (by omega) hc.2.2, ← or_assoc]
      apply or_congr_left
      simp only
      omega

theorem add_of_lt : ∀ {l : IntervalSet} {a b : Nat}, a ≤ b → (∀ e ∈ l, e.1 ≤ e.2 ∧ e.2 < a) → add a b l = l ++ [(a, b)]
  | [], _, _, _, _ => rfl
  | (c, d) :: l, a, b, hab, h => by
    obtain ⟨hcd, hda⟩ := h (c, d) List.mem_cons_self
    simp only at hcd hda
    rw [add, if_neg (by omega), if_pos hda, add_of_lt hab fun e he => h e (List.mem_cons_of_mem _ he)]
    rfl

theorem length_add_le : ∀ (l : IntervalSet) (a b : Nat), (add a b l).length ≤ l.length + 1
  | [], _, _ => le_refl 1
  | (c, d) :: l, a, b => by
    rw [add]
    split
    · exact le_rfl
    split
    · exact Nat.succ_le_succ (length_add_le l a b)
    · exact Nat.le_succ_of_le (length_add_le l _ _)

theorem length_add_le_of_touches : ∀ {l : IntervalSet} {a b : Nat}, Canonical l →
    (∃ e ∈ l, e.1 ≤ b ∧ a ≤ e.2) → (add a b l).length ≤ l.length
  | [], _, _, _, h => by simp at h
  | (c, d) :: l, a, b, hc, h => by
    rw [add]
    by_cases hbc : b < c
    · exfalso
      obtain ⟨e, he, h1, -⟩ := h
      rcases List.mem_cons.1 he with rfl | he
      · exact absurd hbc (not_lt.2 h1)
      · have h2 := hc.2.1 e he
        have h3 := hc.1
        simp only at h2 h3
        omega
    by_cases hda : d < a
    · rw [if_neg hbc, if_pos hda]
      apply Nat.succ_le_succ
      apply length_add_le_of_touches hc.2.2
      obtain ⟨e, he, h1, h2⟩ := h
      rcases List.mem_cons.1 he with rfl | he
      · exact absurd hda (not_lt.2 h2)
      · exact ⟨e, he, h1, h2⟩
    · rw [if_neg hbc, if_neg hda]
      exact length_add_le l _ _

def trimLessThan (v : Nat) : IntervalSet → IntervalSet
  | [] => []
  | (a, b) :: l => if v ≤ a then (a, b) :: l else if b ≤ v then trimLessThan v l else (v, b) :: l

theorem contains_trimLessThan {n v : Nat} : ∀ {l : IntervalSet}, Canonical l →
    (contains n (trimLessThan v l) = true ↔ v ≤ n ∧ contains n l = true)
  | [], _ => by simp [trimLessThan, contains]
  | (a, b) :: l, hc => by
    have hl : contains n l = true → b < n := by
      intro h
      obtain ⟨e, he, h1, -⟩ := contains_iff.1 h
      exact lt_of_lt_of_le (hc.2.1 e he) h1
    have hab : a < b := hc.1
    rw [trimLessThan]
    by_cases hva : v ≤ a
    · rw [if_pos hva, contains_cons]
      constructor
      · intro h
        exact ⟨by rcases h with h | h; omega; have := hl h; omega, h⟩
      · exact fun h => h.2
    by_cases hbv : b ≤ v
    · rw [if_neg hva, if_pos hbv, contains_cons, contains_trimLessThan hc.2.2]
      apply and_congr_right
      intro hv
      constructor
      · exact .inr
      · intro h
        rcases h with h | h
        · omega
        · exact h
    · rw [if_neg hva, if_neg hbv, contains_cons, contains_cons]
      constructor
      · intro h
        rcases h with h | h
        · exact ⟨h.1, .inl ⟨by omega, h.2⟩⟩
        · have := hl h
          exact ⟨by omega, .inr h⟩
      · intro h
        exact h.2.imp_left fun h' => ⟨h.1, h'.2⟩

theorem canonical_trimLessThan {v : Nat} : ∀ {l : IntervalSet}, Canonical l → Canonical (trimLessThan v l)
  | [], h => h
  | (a, b) :: l, h => by
    rw [trimLessThan]
    by_cases hva : v ≤ a
    · rw [if_pos hva]
      exact h
    by_cases hbv : b ≤ v
    · rw [if_neg hva, if_pos hbv]
      exact canonical_trimLessThan h.2.2
    · rw [if_neg hva, if_neg hbv]
      exact ⟨Nat.lt_of_not_le hbv, h.2⟩

theorem length_trimLessThan_le (v : Nat) : ∀ l : IntervalSet, (trimLessThan v l).length ≤ l.length
  | [] => le_refl 0
  | (a, b) :: l => by
    rw [trimLessThan]
    split
    · exact le_rfl
    split
    · exact Nat.le_succ_of_le (length_trimLessThan_le v l)
    · exact le_rfl

end IntervalSet
