/-
Compiled patterns: what a word is matched against.

A pattern is two masks and a list of captures. `fixedMask` has a bit for each
literal and `setMask` a bit for each literal that must be 1, so one
exclusive-or and one conjunction decide whether a word matches. Bits at
`length` and above are in neither mask and never matter. The specificity
counts literals; it is used only to order the patterns of a group.
-/
import WordPattern.Word

namespace WordPattern

/-- Where one field lies in the word. -/
structure Capture where
  name : Option String
  /-- The field's most significant bit. -/
  leftBit : Nat
  width : Nat
  deriving DecidableEq

/-- The field's value in `w`. -/
def Capture.extract (c : Capture) (w : Word) : Word := w.extract c.leftBit c.width

/-- Whether bit `pos` belongs to the field. -/
def Capture.covers (c : Capture) (pos : Nat) : Bool := pos ≤ c.leftBit && c.leftBit + 1 - c.width ≤ pos

/-- What a spec is compiled to. -/
structure Pattern where
  name : Option String
  length : Nat
  /-- The literals with value 1. -/
  setMask : Word
  /-- All literals. -/
  fixedMask : Word
  /-- How many literals there are. -/
  specificity : Nat
  /-- The fields, the most significant first. -/
  captures : List Capture
  deriving DecidableEq

namespace Pattern

/-- Every literal's bit of `w` has the literal's value. -/
def accepts (p : Pattern) (w : Word) : Bool := ~~~(w ^^^ p.setMask) &&& p.fixedMask == p.fixedMask

/-- The fields of `w`, the most significant first, whether or not `w`
matches. -/
def values (p : Pattern) (w : Word) : List Word := p.captures.map (·.extract w)

/-- The fields of a matching word; a pattern without fields captures `[]`. -/
def capture (p : Pattern) (w : Word) : Option (List Word) :=
  if p.accepts w then some (p.values w) else none

/-- The names of the fields, in the order of the values. -/
def names (p : Pattern) : List (Option String) := p.captures.map (·.name)

@[simp] theorem length_values (p : Pattern) (w : Word) : (p.values w).length = p.captures.length := by
  simp [values]

@[simp] theorem length_names (p : Pattern) : p.names.length = p.captures.length := by
  simp [names]

theorem getElem?_names {p : Pattern} {i : Nat} (hi : i < p.captures.length) :
    p.names[i]? = some p.captures[i].name := by
  rw [names, List.getElem?_map, List.getElem?_eq_getElem hi, Option.map_some]

theorem capture_eq_some_iff {p : Pattern} {w : Word} {vs : List Word} :
    p.capture w = some vs ↔ p.accepts w = true ∧ p.values w = vs := by
  simp only [capture]
  split <;> simp_all

theorem accepts_iff_capture {p : Pattern} {w : Word} :
    p.accepts w = true ↔ ∃ vs, p.capture w = some vs := by
  simp only [capture_eq_some_iff, exists_and_left, exists_eq', and_true]

/-- A word matches exactly when it agrees with `setMask` on every literal's
bit. -/
theorem accepts_iff {p : Pattern} {w : Word} :
    p.accepts w = true ↔
      ∀ i < Word.size, p.fixedMask.getBit i = true → w.getBit i = p.setMask.getBit i := by
  simp only [accepts, beq_iff_eq, Word.getBit_eq_getLsbD, Word.size]
  constructor
  · intro h i hi hf
    have hb := congrArg (·.getLsbD i) h
    simp only [BitVec.getLsbD_and, BitVec.getLsbD_not, BitVec.getLsbD_xor, hi, decide_true,
      Bool.true_and, hf, Bool.and_true, Bool.not_eq_true'] at hb
    simpa using hb
  · intro h
    apply BitVec.eq_of_getLsbD_eq
    intro i hi
    simp only [BitVec.getLsbD_and, BitVec.getLsbD_not, BitVec.getLsbD_xor, hi, decide_true,
      Bool.true_and]
    cases hf : p.fixedMask.getLsbD i with
    | false => simp
    | true => simp [h i hi hf]

end Pattern
end WordPattern
