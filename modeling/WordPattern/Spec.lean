/-
The parts of a pattern, read from the most significant bit down.

A literal fixes one bit; a field stands for a run of bits that may hold
anything and is reported as one captured value. A spec is a list of parts,
and nothing about it is checked until it is compiled: a literal may hold any
byte, a field may be empty, and the widths may add up to more than a word.
-/
namespace WordPattern

/-- One element of a pattern. -/
inductive Part where
  /-- One bit that must have the value `bit`, which should be 0 or 1. -/
  | literal (bit : UInt8)
  /-- `width` bits of any value, captured under `name` if there is one. -/
  | field (width : UInt32) (name : Option String)
  deriving DecidableEq

namespace Part

/-- How many bits a part covers. -/
def width : Part → Nat
  | .literal _ => 1
  | .field width _ => width.toNat

/-- Whether a part gives a value. -/
def isField : Part → Bool
  | .literal _ => false
  | .field _ _ => true

end Part

/-- An ordered list of parts; the first part holds the most significant bits. -/
structure Spec where
  parts : List Part
  deriving DecidableEq

namespace Spec

/-- The spec without parts. -/
def empty : Spec := ⟨[]⟩

/-- `s` with more parts below the ones it has. -/
def append (s : Spec) (parts : List Part) : Spec := ⟨s.parts ++ parts⟩

/-- The exact sum of the widths of `parts`, which no machine word bounds. -/
def widthOf : List Part → Nat
  | [] => 0
  | part :: rest => part.width + widthOf rest

/-- How many bits a spec covers. -/
def totalWidth (s : Spec) : Nat := widthOf s.parts

@[simp] theorem widthOf_append (ps qs : List Part) : widthOf (ps ++ qs) = widthOf ps + widthOf qs := by
  induction ps with
  | nil => simp [widthOf]
  | cons p ps ih => simp [widthOf, ih, Nat.add_assoc]

end Spec
end WordPattern
