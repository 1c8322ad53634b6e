/-
One spec above another: the upper layout is moved up by the width of the lower
one, which stays where it is. `compile_append` says what this makes of masks,
matching, captured values and errors.
-/
import WordPattern.Proofs.Tiling

namespace WordPattern

open Word (size)

/-! ## Words moved up and down -/

namespace Word

theorem getBit_shiftRight (w : Word) (k i : Nat) : getBit (w >>> k) i = w.getBit (i + k) := by
  rw [getBit_eq_getLsbD, getBit_eq_getLsbD, BitVec.getLsbD_ushiftRight, Nat.add_comm]

theorem setBit_shiftLeft_or (v w : Word) (n k : Nat) :
    setBit (v <<< k ||| w) (n + k) = v.setBit n <<< k ||| w := by
  rw [setBit, setBit, BitVec.shiftLeft_or_distrib, BitVec.shiftLeft_add, BitVec.or_assoc, BitVec.or_assoc,
    BitVec.or_comm w]

end Word

/-- The same field `k` bits further up. -/
def Capture.raise (k : Nat) (c : Capture) : Capture := { c with leftBit := c.leftBit + k }

theorem Capture.extract_raise {c : Capture} (h : c.width ≤ c.leftBit + 1) (k : Nat) (w : Word) :
    (c.raise k).extract w = c.extract (w >>> k) := by
  have hshift : c.leftBit + k + 1 - c.width = k + (c.leftBit + 1 - c.width) := by omega
  simp only [Capture.extract, Capture.raise, Word.extract]
  rw [hshift, BitVec.shiftRight_add]

/-- The same fault `k` parts further on. -/
def CompileError.shift (k : Nat) : CompileError → CompileError
  | .invalidLiteral index bit => .invalidLiteral (index + k) bit
  | .emptyField index => .emptyField (index + k)
  | .emptyPattern => .emptyPattern
  | .tooLong length max => .tooLong length max

namespace Spec

variable {ps qs : List Part}

/-! ## The two layouts -/

theorem setMask_append (ps qs : List Part) :
    setMask (ps ++ qs) = setMask ps <<< widthOf qs ||| setMask qs := by
  induction ps with
  | nil => simp [setMask]
  | cons part rest ih =>
    cases part with
    | literal bit =>
      rw [List.cons_append, setMask, setMask, widthOf_append, ih]
      split
      · exact Word.setBit_shiftLeft_or _ _ _ _
      · rfl
    | field width name => exact ih

theorem fixedMask_append (ps qs : List Part) :
    fixedMask (ps ++ qs) = fixedMask ps <<< widthOf qs ||| fixedMask qs := by
  induction ps with
  | nil => simp [fixedMask]
  | cons part rest ih =>
    cases part with
    | literal bit =>
      rw [List.cons_append, fixedMask, fixedMask, widthOf_append, ih, Word.setBit_shiftLeft_or]
    | field width name => exact ih

theorem captures_append (hv : ∀ part ∈ ps, part.Valid) (qs : List Part) :
    captures (ps ++ qs) = (captures ps).map (Capture.raise (widthOf qs)) ++ captures qs := by
  induction ps with
  | nil => rfl
  | cons part rest ih =>
    rw [List.forall_mem_cons] at hv
    cases part with
    | literal bit => exact ih hv.2
    | field width name =>
      have hw : 0 < width.toNat := hv.1.width_pos
      have hleft : widthOf rest + widthOf qs + width.toNat - 1 =
          widthOf rest + width.toNat - 1 + widthOf qs := by omega
      rw [List.cons_append, captures, captures, ih hv.2, widthOf_append, List.map_cons, Capture.raise,
        hleft, List.cons_append]

theorem width_le_of_mem_captures : ∀ c ∈ captures ps, c.width ≤ c.leftBit + 1 := by
  induction ps with
  | nil => simp [captures]
  | cons part rest ih =>
    cases part with
    | literal bit => exact ih
    | field width name =>
      refine List.forall_mem_cons.mpr ⟨?_, ih⟩
      simp only
      omega

/-! ## Matching -/

/-- The upper parts look at the bits above the lower ones. -/
theorem literalsIn_append {w : Word} :
    LiteralsIn w (ps ++ qs) ↔ LiteralsIn (w >>> widthOf qs) ps ∧ LiteralsIn w qs := by
  induction ps with
  | nil => exact (and_iff_right trivial).symm
  | cons part rest ih =>
    cases part with
    | literal bit =>
      rw [List.cons_append, LiteralsIn, LiteralsIn, ih, widthOf_append, Word.getBit_shiftRight, and_assoc]
    | field width name => exact ih

theorem values_append (hv : ∀ part ∈ ps, part.Valid) (w : Word) :
    (captures (ps ++ qs)).map (·.extract w) =
      (captures ps).map (·.extract (w >>> widthOf qs)) ++ (captures qs).map (·.extract w) := by
  rw [captures_append hv, List.map_append, List.map_map]
  congr 1
  exact List.map_congr_left fun c hc => Capture.extract_raise (width_le_of_mem_captures c hc) _ w

/-- A fault of the upper parts hides those of the lower ones. -/
theorem firstFault?_append (index : Nat) (ps qs : List Part) :
    firstFault? index (ps ++ qs) = (firstFault? index ps).or (firstFault? (index + ps.length) qs) := by
  induction ps generalizing index with
  | nil => rfl
  | cons part rest ih =>
    rw [List.cons_append, firstFault?, firstFault?]
    cases partFault? index part with
    | some fault => rfl
    | none =>
      simp only
      rw [ih, List.length_cons, Nat.add_assoc, Nat.add_comm 1]

/-- With parts that fit a word, only a bad part keeps a spec from being a
pattern. -/
theorem fault?_eq_firstFault? {s : Spec} (hne : s.parts ≠ []) (hfit : s.totalWidth ≤ size) :
    s.fault? = firstFault? 0 s.parts := by
  rw [fault?, if_neg hne, if_neg (Nat.not_lt.mpr hfit)]

end Spec
end WordPattern
