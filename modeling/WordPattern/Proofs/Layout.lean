/-
Where the parts of a spec come to lie: each just above the parts after it,
`widthOf rest` bits up. Laying out from the top comes to the same, `placeAll_eq`,
so compiling gives this layout exactly for the valid specs,
`compile_eq_ok_iff`, and a word matches when each literal's bit is in it,
`accepts_layOut`.
-/
import WordPattern.Pattern.Compile

namespace WordPattern

/-- A literal is 0 or 1, and a field has a bit. -/
def Part.Valid : Part → Prop
  | .literal bit => bit = 0 ∨ bit = 1
  | .field width _ => width ≠ 0

instance : DecidablePred Part.Valid
  | .literal bit => inferInstanceAs (Decidable (bit = 0 ∨ bit = 1))
  | .field width _ => inferInstanceAs (Decidable (width ≠ 0))

theorem Part.Valid.width_pos {part : Part} (h : part.Valid) : 0 < part.width := by
  cases part with
  | literal bit => exact Nat.one_pos
  | field width name => exact Nat.pos_of_ne_zero fun hw => h (UInt32.toNat_inj.mp hw)

namespace Spec

/-- What a spec needs to be a pattern. -/
structure Valid (s : Spec) : Prop where
  nonempty : s.parts ≠ []
  fits : s.totalWidth ≤ Word.size
  parts : ∀ part ∈ s.parts, part.Valid

/-! ## The layout from below -/

/-- A bit for each literal whose value is 1. -/
def setMask : List Part → Word
  | [] => 0
  | .literal bit :: rest => if bit = 1 then (setMask rest).setBit (widthOf rest) else setMask rest
  | .field _ _ :: rest => setMask rest

/-- A bit for each literal. -/
def fixedMask : List Part → Word
  | [] => 0
  | .literal _ :: rest => (fixedMask rest).setBit (widthOf rest)
  | .field _ _ :: rest => fixedMask rest

/-- A capture for each field. -/
def captures : List Part → List Capture
  | [] => []
  | .literal _ :: rest => captures rest
  | .field width name :: rest => ⟨name, widthOf rest + width.toNat - 1, width.toNat⟩ :: captures rest

/-- The pattern of a valid spec. -/
def layOut (name : Option String) (s : Spec) : Pattern where
  name := name
  length := s.totalWidth
  setMask := setMask s.parts
  fixedMask := fixedMask s.parts
  specificity := s.parts.length - (captures s.parts).length
  captures := captures s.parts

/-- What is wrong with a part at position `index`. -/
def partFault? (index : Nat) : Part → Option CompileError
  | .literal bit => if bit = 0 ∨ bit = 1 then none else some (.invalidLiteral index bit)
  | .field width _ => if width = 0 then some (.emptyField index) else none

/-- The fault of the first bad part, for parts whose positions start at
`index`. -/
def firstFault? (index : Nat) : List Part → Option CompileError
  | [] => none
  | part :: rest =>
    match partFault? index part with
    | some fault => some fault
    | none => firstFault? (index + 1) rest

/-- What keeps a spec from being a pattern. -/
def fault? (s : Spec) : Option CompileError :=
  if s.parts = [] then some .emptyPattern
  else if Word.size < s.totalWidth then some (.tooLong s.totalWidth Word.size)
  else firstFault? 0 s.parts

/-- **Laying out from the top is laying out from below.** The invariant is
that `below` counts the bits of the parts still to come; it holds on the way
to a bad part as well. -/
theorem placeAll_eq (d : Draft) (index : Nat) (ps : List Part) (h : d.below = widthOf ps) :
    d.placeAll index ps =
      match firstFault? index ps with
      | some fault => .error fault
      | none => .ok ⟨0, d.setMask ||| setMask ps, d.fixedMask ||| fixedMask ps, d.captures ++ captures ps⟩ := by
  induction ps generalizing d index with
  | nil =>
    cases d
    simp_all [Draft.placeAll, firstFault?, setMask, fixedMask, captures, widthOf]
  | cons part rest ih =>
    cases part with
    | literal bit =>
      have hb : d.below - 1 = widthOf rest := by rw [h, widthOf, Part.width]; omega
      simp only [Draft.placeAll, Draft.place, Draft.placeLiteral, firstFault?, partFault?, hb]
      by_cases h0 : bit = 0
      · subst h0
        simp only [↓reduceIte, true_or]
        rw [ih _ _ rfl]
        simp only [setMask, fixedMask, captures, Word.setBit_or]
        rfl
      · by_cases h1 : bit = 1
        · subst h1
          simp only [h0, ↓reduceIte, or_true]
          rw [ih _ _ rfl]
          simp only [setMask, fixedMask, captures, Word.setBit_or, ↓reduceIte]
        · simp only [h0, h1, ↓reduceIte, or_self]
    | field width name =>
      have hb : d.below - width.toNat = widthOf rest := by rw [h, widthOf, Part.width]; omega
      simp only [Draft.placeAll, Draft.place, Draft.placeField, firstFault?, partFault?, hb]
      by_cases hw : width = 0
      · simp only [hw, ↓reduceIte]
      · simp only [hw, ↓reduceIte]
        rw [ih _ _ rfl]
        simp only [setMask, fixedMask, captures, List.append_assoc, List.singleton_append]

theorem compile_eq (name : Option String) (s : Spec) :
    s.compile name =
      match s.fault? with
      | some fault => .error fault
      | none => .ok (s.layOut name) := by
  simp only [compile, fault?]
  split
  · rfl
  split
  · rfl
  rw [placeAll_eq _ _ _ rfl]
  cases firstFault? 0 s.parts with
  | some fault => rfl
  | none => simp [Draft.start, layOut]

theorem compile_eq_error_iff {name : Option String} {s : Spec} {e : CompileError} :
    s.compile name = .error e ↔ s.fault? = some e := by
  rw [compile_eq]
  split <;> simp_all

theorem partFault?_eq_none_iff {index : Nat} {part : Part} :
    partFault? index part = none ↔ part.Valid := by
  cases part <;> simp only [partFault?, Part.Valid] <;> split <;> simp_all

theorem firstFault?_eq_none_iff {index : Nat} {ps : List Part} :
    firstFault? index ps = none ↔ ∀ part ∈ ps, part.Valid := by
  induction ps generalizing index with
  | nil => simp [firstFault?]
  | cons part rest ih =>
    rw [firstFault?, List.forall_mem_cons, ← @partFault?_eq_none_iff index]
    split
    · simp_all
    · rw [ih]; simp_all

theorem fault?_eq_none_iff {s : Spec} : s.fault? = none ↔ s.Valid := by
  rw [fault?]
  split
  · next hempty => exact iff_of_false (by simp) fun h => h.nonempty hempty
  split
  · next hlong => exact iff_of_false (by simp) fun h => Nat.not_lt.mpr h.fits hlong
  next hne hfit =>
  rw [firstFault?_eq_none_iff]
  exact ⟨fun h => ⟨hne, by omega, h⟩, fun h => h.parts⟩

/-- **Compiling lays a spec out**, and does so exactly for the valid ones. -/
theorem compile_eq_ok_iff {name : Option String} {s : Spec} {p : Pattern} :
    s.compile name = .ok p ↔ s.Valid ∧ s.layOut name = p := by
  rw [compile_eq, ← fault?_eq_none_iff]
  split <;> simp_all

/-! ## The bits of the masks -/

open Word (size)

variable {ps : List Part}

theorem widthOf_le_of_cons {part : Part} (h : widthOf (part :: ps) ≤ size) : widthOf ps ≤ size :=
  Nat.le_trans (Nat.le_add_left _ _) h

theorem widthOf_lt_of_literal {bit : UInt8} (h : widthOf (.literal bit :: ps) ≤ size) :
    widthOf ps < size := by
  simp only [widthOf, Part.width] at h
  omega

theorem getBit_fixedMask_literal {bit : UInt8} (h : widthOf (.literal bit :: ps) ≤ size) (i : Nat) :
    (fixedMask (.literal bit :: ps)).getBit i = ((fixedMask ps).getBit i || decide (i = widthOf ps)) := by
  rw [fixedMask, Word.getBit_setBit _ (widthOf_lt_of_literal h)]

theorem getBit_setMask_literal {bit : UInt8} (h : widthOf (.literal bit :: ps) ≤ size) (i : Nat) :
    (setMask (.literal bit :: ps)).getBit i =
      ((setMask ps).getBit i || decide (bit = 1) && decide (i = widthOf ps)) := by
  rw [setMask]
  split
  · next hb => rw [Word.getBit_setBit _ (widthOf_lt_of_literal h), decide_eq_true hb, Bool.true_and]
  · next hb => rw [decide_eq_false hb, Bool.false_and, Bool.or_false]

/-- No literal lies above the parts. -/
theorem lt_of_getBit_fixedMask (h : widthOf ps ≤ size) {i : Nat}
    (hi : (fixedMask ps).getBit i = true) : i < widthOf ps := by
  induction ps with
  | nil => rw [fixedMask, Word.getBit_zero] at hi; cases hi
  | cons part rest ih =>
    cases part with
    | literal bit =>
      have hrest := widthOf_lt_of_literal h
      rw [getBit_fixedMask_literal h, Bool.or_eq_true, decide_eq_true_eq] at hi
      simp only [widthOf, Part.width]
      rcases hi with hi | rfl
      · have := ih (Nat.le_of_lt hrest) hi
        omega
      · omega
    | field width name =>
      have := ih (widthOf_le_of_cons h) hi
      rw [widthOf]
      omega

/-- What must be set is fixed. -/
theorem getBit_fixedMask_of_setMask (h : widthOf ps ≤ size) {i : Nat}
    (hi : (setMask ps).getBit i = true) : (fixedMask ps).getBit i = true := by
  induction ps with
  | nil => exact hi
  | cons part rest ih =>
    cases part with
    | literal bit =>
      rw [getBit_setMask_literal h, Bool.or_eq_true, Bool.and_eq_true] at hi
      rw [getBit_fixedMask_literal h, Bool.or_eq_true]
      rcases hi with hi | ⟨-, hi⟩
      · exact .inl (ih (Nat.le_of_lt (widthOf_lt_of_literal h)) hi)
      · exact .inr hi
    | field width name => exact ih (widthOf_le_of_cons h) hi

theorem lt_of_getBit_setMask (h : widthOf ps ≤ size) {i : Nat} (hi : (setMask ps).getBit i = true) :
    i < widthOf ps := lt_of_getBit_fixedMask h (getBit_fixedMask_of_setMask h hi)

theorem getBit_fixedMask_of_le (h : widthOf ps ≤ size) {i : Nat} (hi : widthOf ps ≤ i) :
    (fixedMask ps).getBit i = false :=
  Bool.eq_false_iff.mpr fun hf => Nat.not_lt.mpr hi (lt_of_getBit_fixedMask h hf)

theorem getBit_setMask_of_le (h : widthOf ps ≤ size) {i : Nat} (hi : widthOf ps ≤ i) :
    (setMask ps).getBit i = false :=
  Bool.eq_false_iff.mpr fun hs => Nat.not_lt.mpr hi (lt_of_getBit_setMask h hs)

/-! ## Matching, part by part -/

/-- Each literal has its bit in `w`. -/
def LiteralsIn (w : Word) : List Part → Prop
  | [] => True
  | .literal bit :: rest => w.getBit (widthOf rest) = decide (bit = 1) ∧ LiteralsIn w rest
  | .field _ _ :: rest => LiteralsIn w rest

theorem literalsIn_iff {w : Word} (h : widthOf ps ≤ size) :
    LiteralsIn w ps ↔
      ∀ i < size, (fixedMask ps).getBit i = true → w.getBit i = (setMask ps).getBit i := by
  induction ps with
  | nil => simp only [LiteralsIn, fixedMask, Word.getBit_zero, Bool.false_eq_true,
      false_implies, implies_true]
  | cons part rest ih =>
    cases part with
    | field width name => exact ih (widthOf_le_of_cons h)
    | literal bit =>
      have hrest := widthOf_lt_of_literal h
      -- The literal's own bit is above all bits of the rest.
      have hset : (setMask rest).getBit (widthOf rest) = false :=
        getBit_setMask_of_le (Nat.le_of_lt hrest) (Nat.le_refl _)
      simp only [LiteralsIn, ih (Nat.le_of_lt hrest), getBit_fixedMask_literal h,
        getBit_setMask_literal h, Bool.or_eq_true, decide_eq_true_eq]
      refine ⟨fun h i hi hfix => ?_, fun hall => ⟨?_, fun i hi hf => ?_⟩⟩
      · obtain ⟨htop, hbelow⟩ := h
        rcases hfix with hf | rfl
        · have hne : i ≠ widthOf rest := Nat.ne_of_lt (lt_of_getBit_fixedMask (Nat.le_of_lt hrest) hf)
          simp [hne, hbelow i hi hf]
        · simp [htop, hset]
      · simpa [hset] using hall _ hrest (.inr rfl)
      · have hne : i ≠ widthOf rest := Nat.ne_of_lt (lt_of_getBit_fixedMask (Nat.le_of_lt hrest) hf)
        simpa [hne] using hall i hi (.inl hf)

/-- **A word matches exactly when each literal has its bit in it.** -/
theorem accepts_layOut {name : Option String} {s : Spec} (h : s.totalWidth ≤ size) (w : Word) :
    (s.layOut name).accepts w = true ↔ LiteralsIn w s.parts := by
  rw [Pattern.accepts_iff, literalsIn_iff h]
  rfl

/-! ## Captures -/

theorem length_captures (ps : List Part) : (captures ps).length = ps.countP Part.isField := by
  induction ps with
  | nil => rfl
  | cons p ps ih => cases p <;> simp [captures, Part.isField, List.countP_cons, ih]

end Spec
end WordPattern
