import Mathlib.Data.List.Basic

/-!
# Predicates on a call stack

A stack of blocks still to run, innermost first. An invariant that a running call breaks
for the moment reads "it holds, or a block that restores it is on the stack"; `has` is
that second half. `Above`, `Before` and `reaches` say how blocks of two kinds lie on the
stack relative to each other.
-/

namespace Stack

section
variable {α : Type*} {p q : α → Bool} {l l' : List α} {a : α}

def has (p : α → Bool) (l : List α) : Bool := l.any p

@[simp] theorem has_nil : has p [] = false := rfl

@[simp] theorem has_cons : has p (a :: l) = (p a || has p l) := rfl

@[simp] theorem has_append : has p (l ++ l') = (has p l || has p l') := List.any_append

theorem has_iff : has p l = true ↔ ∃ a ∈ l, p a = true := List.any_eq_true

theorem has_of_mem (h : a ∈ l) (hp : p a = true) : has p l = true := has_iff.2 ⟨a, h, hp⟩

theorem has_mono (hpq : ∀ a, p a = true → q a = true) (h : has p l = true) : has q l = true := by
  obtain ⟨a, ha, hp⟩ := has_iff.1 h
  exact has_of_mem ha (hpq a hp)

theorem not_has_of_all (hq : ∀ a ∈ l, q a = true) (hpq : ∀ a, q a = true → p a = false) : has p l = false := by
  by_contra h
  obtain ⟨a, ha, hp⟩ := has_iff.1 (by simpa using h)
  rw [hpq a (hq a ha)] at hp
  cases hp

def Above (p q : α → Bool) (l : List α) : Prop := l.Pairwise fun a b => p b = true → q a = true

theorem above_cons : Above p q (a :: l) ↔ (has p l = true → q a = true) ∧ Above p q l := by
  unfold Above
  rw [List.pairwise_cons]
  refine and_congr_left fun _ => ⟨fun h hp => ?_, fun h b hb hp => h (has_of_mem hb hp)⟩
  obtain ⟨b, hb, hp⟩ := has_iff.1 hp
  exact h b hb hp

theorem above_of_not_has (h : has p l = false) : Above p q l := by
  induction l with
  | nil => exact .nil
  | cons a l ih =>
    rw [has_cons, Bool.or_eq_false_iff] at h
    exact above_cons.2 ⟨fun hp => (by cases h.2.symm.trans hp), ih h.2⟩

variable {b : α} {ops : List α}

/-- A block makes way for the blocks it pushes: it is enough that a `q` pushes nothing but `q`s. -/
theorem Above.step (h : Above p q (b :: l)) (hops : Above p q ops)
    (hq : q b = true → ∀ a ∈ ops, q a = true) : Above p q (ops ++ l) := by
  obtain ⟨hb, hl⟩ := above_cons.1 h
  exact List.pairwise_append.2 ⟨hops, hl, fun a ha _ hc hp => hq (hb (has_of_mem hc hp)) a ha⟩

theorem Above.not_has (h : Above p q (b :: l)) (hb : q b = false) : has p l = false := by
  by_contra hp
  rw [Bool.not_eq_false] at hp
  cases hb.symm.trans ((above_cons.1 h).1 hp)

def Before (p q : α → Bool) : List α → Prop
  | [] => True
  | a :: l => (p a = true → has q l = true) ∧ Before p q l

theorem Before.append (hl : Before p q l) (hops : has q l = true ∨ Before p q ops) : Before p q (ops ++ l) := by
  induction ops with
  | nil => exact hl
  | cons a ops ih =>
    refine ⟨fun hp => ?_, ih (hops.imp_right And.right)⟩
    show has q (ops ++ l) = true
    rw [has_append, Bool.or_eq_true]
    exact hops.symm.imp_left fun h => h.1 hp

/-- What a `p` pushes finds the same `q` below; any other block pushes a list that is in order by itself. -/
theorem Before.step (h : Before p q (b :: l)) (hops : p b = true ∨ Before p q ops) : Before p q (ops ++ l) :=
  h.2.append (hops.imp_left h.1)

def reaches (p q : α → Bool) : List α → Bool
  | [] => false
  | a :: l => p a || (!q a && reaches p q l)

@[simp] theorem reaches_cons : reaches p q (a :: l) = (p a || (!q a && reaches p q l)) := rfl

theorem reaches_append (hops : has q ops = false) (h : reaches p q l = true) : reaches p q (ops ++ l) = true := by
  induction ops with
  | nil => exact h
  | cons a ops ih =>
    rw [has_cons, Bool.or_eq_false_iff] at hops
    rw [List.cons_append, reaches_cons, ih hops.2, hops.1, Bool.not_false, Bool.and_self, Bool.or_true]

theorem reaches_of_has (hops : has q ops = false) (h : has p ops = true) : reaches p q (ops ++ l) = true := by
  induction ops with
  | nil => cases h
  | cons a ops ih =>
    rw [has_cons, Bool.or_eq_false_iff] at hops
    rw [has_cons, Bool.or_eq_true] at h
    rw [List.cons_append, reaches_cons, hops.1, Bool.not_false, Bool.true_and, Bool.or_eq_true]
    exact h.imp_right (ih hops.2)

theorem reaches_tail (h : reaches p q (a :: l) = true) (ha : p a = false) : reaches p q l = true := by
  rw [reaches_cons, ha, Bool.false_or, Bool.and_eq_true] at h
  exact h.2

end

end Stack
