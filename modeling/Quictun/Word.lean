import Mathlib.Algebra.Group.Nat.Defs
import Mathlib.Data.Nat.Bitwise

/-!
# 64-bit words

Unsigned 64-bit arithmetic as natural numbers that wrap around, and the tests that code
makes with contiguous bit masks.
-/

namespace Word

def add (a b : Nat) : Nat := (a + b) % 2 ^ 64
def sub (a b : Nat) : Nat := (a + 2 ^ 64 - b) % 2 ^ 64
def mul (a b : Nat) : Nat := (a * b) % 2 ^ 64

def not (a : Nat) : Nat := 2 ^ 64 - 1 - a

variable {a b : Nat}

theorem add_eq (h : a + b < 2 ^ 64) : add a b = a + b := Nat.mod_eq_of_lt h

theorem sub_eq (hb : b ≤ a) (ha : a < 2 ^ 64) : sub a b = a - b := by
  rw [sub]
  omega

theorem mul_eq (h : a * b < 2 ^ 64) : mul a b = a * b := Nat.mod_eq_of_lt h

variable {i j : Nat}

theorem and_bits (v : Nat) (hij : i ≤ j) : v &&& (2 ^ j - 2 ^ i) = v / 2 ^ i % 2 ^ (j - i) * 2 ^ i := by
  have hmask : 2 ^ j - 2 ^ i = (2 ^ (j - i) - 1) <<< i := by
    rw [Nat.shiftLeft_eq, Nat.sub_mul, ← Nat.pow_add, Nat.sub_add_cancel hij, one_mul]
  rw [hmask, ← Nat.shiftLeft_eq, ← Nat.and_two_pow_sub_one_eq_mod, ← Nat.shiftRight_eq_div_pow]
  apply Nat.eq_of_testBit_eq
  intro k
  simp only [Nat.testBit_and, Nat.testBit_shiftLeft, Nat.testBit_shiftRight]
  by_cases hk : i ≤ k
  · simp [hk]
  · simp [hk]

theorem and_bits_eq_zero {v i j : Nat} (hij : i ≤ j) (hv : v < 2 ^ j) : v &&& (2 ^ j - 2 ^ i) = 0 ↔ v < 2 ^ i := by
  have hpos : 0 < 2 ^ i := Nat.two_pow_pos i
  have hlt : v / 2 ^ i < 2 ^ (j - i) := by
    rw [Nat.div_lt_iff_lt_mul hpos, ← Nat.pow_add, Nat.sub_add_cancel hij]
    exact hv
  rw [and_bits v hij, Nat.mod_eq_of_lt hlt, Nat.mul_eq_zero, Nat.div_eq_zero_iff]
  omega

theorem and_not_low {v k : Nat} (hk : k ≤ 64) (hv : v < 2 ^ 64) : v &&& not (2 ^ k - 1) = v / 2 ^ k * 2 ^ k := by
  have hpos : 0 < 2 ^ k := Nat.two_pow_pos k
  have hmask : not (2 ^ k - 1) = 2 ^ 64 - 2 ^ k := by
    rw [not]
    omega
  have hlt : v / 2 ^ k < 2 ^ (64 - k) := by
    rw [Nat.div_lt_iff_lt_mul hpos, ← Nat.pow_add, Nat.sub_add_cancel hk]
    exact hv
  rw [hmask, and_bits v hk, Nat.mod_eq_of_lt hlt]

end Word
