/-
Non-negative doubles as natural numbers.

Every finite double is a multiple of `2^-1074`, so a non-negative one is
kept as that multiple: `one = 2^1074`. The doubles between `2^(52+k)` and
`2^(53+k)` of these units are the multiples of `2^k` there. `nearest` rounds
a quotient to a double as if there were no greatest one, and
`nearest_le_half` says that it is off by no more than half a step.
-/
namespace WordPattern.Decimal

/-- The natural number nearest `num / den`, an even one where two are as
near. -/
def roundEven (num den : Nat) : Nat :=
  let quotient := num / den
  let rest := num % den
  if 2 * rest < den ∨ (2 * rest = den ∧ quotient % 2 = 0) then quotient else quotient + 1

namespace Binary64

/-- The double 1. -/
def one : Nat := Nat.pow 2 1074

/-- The least magnitude beyond the greatest finite double. -/
def limit : Nat := Nat.pow 2 1024 * one

/-- The exponent `k` of the step `2^k` between the doubles next to `num / den`. -/
def stepExponent (num den : Nat) : Nat := (num / den).log2 - 52

/-- The double nearest `num / den`. -/
def nearest (num den : Nat) : Nat :=
  let step := Nat.pow 2 (stepExponent num den)
  roundEven num (den * step) * step

/-- The product of two doubles, rounded. -/
def mul (x y : Nat) : Nat := nearest (x * y) one

/-- The quotient of two doubles, rounded. -/
def div (x y : Nat) : Nat := nearest (x * one) y

/-- The double nearest `n`. -/
def ofNat (n : Nat) : Nat := nearest (n * one) 1

end Binary64

theorem roundEven_le_half (num : Nat) {den : Nat} (h : 0 < den) :
    2 * (roundEven num den * den) ≤ 2 * num + den ∧ 2 * num ≤ 2 * (roundEven num den * den) + den := by
  have hdm := Nat.div_add_mod num den
  have hr := Nat.mod_lt num h
  have hs := Nat.add_mul (num / den) 1 den
  rw [Nat.mul_comm] at hdm
  unfold roundEven
  dsimp only
  split <;> omega

/-- A rounded quotient is off by no more than half a step. -/
theorem Binary64.nearest_le_half {num den : Nat} (h : 0 < den) :
    2 * (nearest num den * den) ≤ 2 * num + den * Nat.pow 2 (stepExponent num den) ∧
      2 * num ≤ 2 * (nearest num den * den) + den * Nat.pow 2 (stepExponent num den) := by
  have hstep : 0 < Nat.pow 2 (stepExponent num den) := Nat.two_pow_pos _
  have := roundEven_le_half num (Nat.mul_pos h hstep)
  simpa [nearest, Nat.mul_assoc, Nat.mul_comm, Nat.mul_left_comm] using this

end WordPattern.Decimal
