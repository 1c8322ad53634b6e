/-
Words as numbers: a field is what a division and a remainder leave of the word's
number, `toNat_extract`, and the number that its bits write in binary, the most
significant first, `number_bits`.
-/
import Mathlib.Algebra.Group.Nat.Defs
import WordPattern.Word

namespace WordPattern
namespace Word

theorem getBit_eq_testBit (w : Word) (n : Nat) : w.getBit n = w.toNat.testBit n := by
  rw [getBit_eq_getLsbD, BitVec.testBit_toNat]

theorem toNat_lt_of_getBit {w : Word} {n : Nat} (h : ∀ i, w.getBit i = true → i < n) :
    w.toNat < 2 ^ n := by
  refine Nat.lt_pow_two_of_testBit _ fun i hi => Bool.eq_false_iff.mpr fun hbit => ?_
  rw [← getBit_eq_testBit] at hbit
  exact Nat.not_lt.mpr hi (h i hbit)

/-- A field is cut out of the word's number by a division and a remainder. -/
theorem toNat_extract {left width : Nat} (w : Word) (hl : left < size) (hw : width ≤ left + 1) :
    (w.extract left width).toNat = w.toNat / 2 ^ (left + 1 - width) % 2 ^ width := by
  apply Nat.eq_of_testBit_eq
  intro i
  rw [← getBit_eq_testBit, getBit_extract w hl hw, Nat.testBit_mod_two_pow, Nat.testBit_div_two_pow,
    getBit_eq_testBit, Nat.add_comm]

theorem toNat_extract_above {below width : Nat} (w : Word) (hw : 0 < width)
    (hfit : width + below ≤ size) :
    (w.extract (below + width - 1) width).toNat = w.toNat / 2 ^ below % 2 ^ width := by
  have hleft : below + width - 1 + 1 - width = below := by omega
  rw [toNat_extract w (by omega) (by omega), hleft]

/-! ## Digits -/

/-- The number that binary digits write, the most significant first. -/
def number : List Bool → Nat
  | [] => 0
  | bit :: rest => bit.toNat * 2 ^ rest.length + number rest

/-- The `width` bits of `x` above its lowest `below` ones write the field of
`x` that lies there. -/
theorem number_bits (x below width : Nat) :
    number ((List.range width).map fun j => x.testBit (below + width - 1 - j)) =
      x / 2 ^ below % 2 ^ width := by
  induction width with
  | zero => simp [number, Nat.mod_one]
  | succ width ih =>
    have htail : ((List.range width).map fun j => x.testBit (below + (width + 1) - 1 - (j + 1))) =
        (List.range width).map fun j => x.testBit (below + width - 1 - j) := by
      apply List.map_congr_left
      intro j hj
      congr 1
      omega
    have htop : (x.testBit (below + (width + 1) - 1)).toNat = x / 2 ^ below / 2 ^ width % 2 := by
      rw [Nat.toNat_testBit, Nat.div_div_eq_div_mul, ← Nat.pow_add, Nat.add_succ_sub_one]
    rw [List.range_succ_eq_map, List.map_cons, List.map_map, number, Nat.mod_pow_succ, ← ih,
      Nat.add_comm, Nat.mul_comm (2 ^ width)]
    simp only [Function.comp_def, List.length_map, List.length_range, Nat.succ_eq_add_one, htail,
      Nat.sub_zero, htop]

theorem mul_two_pow_add_lt {d c k r : Nat} (hd : d < 2 ^ k) (hc : c < 2 ^ r) :
    d * 2 ^ r + c < 2 ^ (k + r) := by
  calc d * 2 ^ r + c < d * 2 ^ r + 2 ^ r := Nat.add_lt_add_left hc _
    _ = (d + 1) * 2 ^ r := by rw [Nat.succ_mul]
    _ ≤ 2 ^ k * 2 ^ r := Nat.mul_le_mul_right _ hd
    _ = 2 ^ (k + r) := by rw [Nat.pow_add]

/-- The lowest bits of `x` are a digit and a remainder exactly when each of
the two is read where it lies. -/
theorem mod_two_pow_add_eq_iff {x d c k r : Nat} (hc : c < 2 ^ r) :
    x % 2 ^ (k + r) = d * 2 ^ r + c ↔ x / 2 ^ r % 2 ^ k = d ∧ x % 2 ^ r = c := by
  have hdiv : x % 2 ^ (k + r) / 2 ^ r = x / 2 ^ r % 2 ^ k := by
    rw [Nat.pow_add, Nat.mod_mul_left_div_self]
  have hmod : x % 2 ^ (k + r) % 2 ^ r = x % 2 ^ r := by rw [Nat.pow_add, Nat.mod_mul_left_mod]
  rw [← hdiv, ← hmod, Nat.div_mod_unique (Nat.two_pow_pos r)]
  refine ⟨fun h => ⟨?_, hc⟩, fun h => ?_⟩
  · rw [h, Nat.mul_comm, Nat.add_comm]
  · rw [← h.1, Nat.mul_comm, Nat.add_comm]

end Word
end WordPattern
