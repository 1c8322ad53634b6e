/-
Machine words, and the bits and fields inside them.

A word has 32 bits, and bit 0 is the least significant. A field of a word is
given by its most significant bit `left` and its `width`; it is in range when
`left < 32` and `1 ≤ width ≤ left + 1`, and `extract` reads it as a word of
its own. `getBit_setBit` and `getBit_extract` say what each operation does to
the single bits, and by `eq_of_getBit_eq` there is no more to a word than
these.
-/
namespace WordPattern

/-- A machine word. -/
abbrev Word := BitVec 32

namespace Word

/-- How many bits a word has: the greatest length of a pattern. -/
def size : Nat := 32

/-- Bit `n` of `w`. -/
def getBit (w : Word) (n : Nat) : Bool := (w >>> n) &&& 1#32 == 1#32

/-- `w` with bit `n` set. -/
def setBit (w : Word) (n : Nat) : Word := w ||| (1#32 <<< n)

/-- The word whose low `width` bits are set and whose other bits are clear. -/
def lowMask (width : Nat) : Word := BitVec.allOnes 32 >>> (size - width)

/-- The field of `width` bits whose most significant bit is `left`. -/
def extract (w : Word) (left width : Nat) : Word := (w >>> (left + 1 - width)) &&& lowMask width

/-- `w` in binary, filled up with zeros to `width` digits and never cut. -/
def binary (width : Nat) (w : Word) : List Char := (Nat.toDigits 2 w.toNat).leftpad width '0'

/-! ## Single bits -/

theorem getBit_eq_getLsbD (w : Word) (n : Nat) : getBit w n = w.getLsbD n := by
  rw [getBit, BitVec.and_one_eq_setWidth_ofBool_getLsbD, BitVec.getLsbD_ushiftRight, Nat.add_zero]
  cases w.getLsbD n <;> decide

theorem getBit_zero (i : Nat) : getBit 0 i = false := by
  simp [getBit_eq_getLsbD]

theorem getBit_setBit {n : Nat} (w : Word) (hn : n < size) (i : Nat) :
    getBit (setBit w n) i = (getBit w i || decide (i = n)) := by
  simp only [getBit_eq_getLsbD, setBit, BitVec.getLsbD_or, BitVec.getLsbD_shiftLeft, size] at *
  by_cases h : i = n
  · subst h; simp [hn]
  · by_cases hi : i < n
    · simp [h, hi]
    · have : i - n ≠ 0 := by omega
      simp [h, this]

theorem getBit_lowMask {width : Nat} (hw : width ≤ size) (i : Nat) :
    getBit (lowMask width) i = decide (i < width) := by
  simp only [getBit_eq_getLsbD, lowMask, BitVec.getLsbD_ushiftRight, BitVec.getLsbD_allOnes, size] at *
  exact decide_eq_decide.mpr (by omega)

theorem getBit_extract {left width : Nat} (w : Word) (hl : left < size) (hw : width ≤ left + 1)
    (i : Nat) : getBit (extract w left width) i = (decide (i < width) && getBit w (left + 1 - width + i)) := by
  have hm := getBit_lowMask (show width ≤ size by omega) i
  simp only [getBit_eq_getLsbD] at hm ⊢
  rw [extract, BitVec.getLsbD_and, hm, BitVec.getLsbD_ushiftRight, Bool.and_comm]

@[simp] theorem getBit_and (v w : Word) (i : Nat) : getBit (v &&& w) i = (getBit v i && getBit w i) := by
  simp only [getBit_eq_getLsbD, BitVec.getLsbD_and]

@[simp] theorem getBit_or (v w : Word) (i : Nat) : getBit (v ||| w) i = (getBit v i || getBit w i) := by
  simp only [getBit_eq_getLsbD, BitVec.getLsbD_or]

@[simp] theorem getBit_xor (v w : Word) (i : Nat) : getBit (v ^^^ w) i = (getBit v i ^^ getBit w i) := by
  simp only [getBit_eq_getLsbD, BitVec.getLsbD_xor]

/-- A word is its bits. -/
theorem eq_of_getBit_eq {v w : Word} (h : ∀ i, getBit v i = getBit w i) : v = w := by
  apply BitVec.eq_of_getLsbD_eq
  intro i _
  rw [← getBit_eq_getLsbD, ← getBit_eq_getLsbD, h]

theorem eq_of_getBit_lt {v w : Word} {n : Nat} (hv : ∀ i, getBit v i = true → i < n)
    (hw : ∀ i, getBit w i = true → i < n) (h : ∀ i < n, (getBit v i = true ↔ getBit w i = true)) :
    v = w := by
  refine eq_of_getBit_eq fun i => Bool.eq_iff_iff.mpr ⟨fun hi => ?_, fun hi => ?_⟩
  · exact (h i (hv i hi)).mp hi
  · exact (h i (hw i hi)).mpr hi

theorem setBit_or (w v : Word) (n : Nat) : w.setBit n ||| v = w ||| v.setBit n := by
  simp only [setBit, BitVec.or_assoc, BitVec.or_comm (1#32 <<< n)]

end Word
end WordPattern
