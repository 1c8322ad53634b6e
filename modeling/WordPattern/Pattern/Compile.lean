/-
From a spec to a pattern.

A spec is refused when it has no parts or is longer than a word. Otherwise
its parts are laid out from the top of the word down: a `Draft` knows how
many bits still lie below the parts laid out so far, and each part takes the
topmost of these. Laying out stops at the first part that is no literal 0 or
1 and no field with a bit.
-/
import WordPattern.Pattern
import WordPattern.Spec

namespace WordPattern

/-- Why a spec is no pattern. An `index` counts parts. -/
inductive CompileError where
  | emptyPattern
  | tooLong (length max : Nat)
  | invalidLiteral (index : Nat) (bit : UInt8)
  | emptyField (index : Nat)
  deriving DecidableEq

namespace Spec

/-- The masks and captures of the parts laid out so far. -/
structure Draft where
  /-- How many bits lie below these parts. -/
  below : Nat
  setMask : Word
  fixedMask : Word
  captures : List Capture
  deriving DecidableEq

namespace Draft

/-- Nothing laid out of a pattern of `length` bits. -/
def start (length : Nat) : Draft := ⟨length, 0, 0, []⟩

/-- A literal takes one bit. -/
def placeLiteral (d : Draft) (index : Nat) (bit : UInt8) : Except CompileError Draft :=
  let below := d.below - 1
  if bit = 0 then .ok { d with below, fixedMask := d.fixedMask.setBit below }
  else if bit = 1 then
    .ok { d with below, setMask := d.setMask.setBit below, fixedMask := d.fixedMask.setBit below }
  else .error (.invalidLiteral index bit)

/-- A field takes `width` bits. -/
def placeField (d : Draft) (index : Nat) (width : UInt32) (name : Option String) :
    Except CompileError Draft :=
  if width = 0 then .error (.emptyField index)
  else
    let below := d.below - width.toNat
    .ok { d with below, captures := d.captures ++ [⟨name, below + width.toNat - 1, width.toNat⟩] }

/-- The part at position `index`. -/
def place (d : Draft) (index : Nat) : Part → Except CompileError Draft
  | .literal bit => d.placeLiteral index bit
  | .field width name => d.placeField index width name

/-- Parts whose positions start at `index`, up to the first bad one. -/
def placeAll (d : Draft) (index : Nat) : List Part → Except CompileError Draft
  | [] => .ok d
  | part :: rest =>
    match d.place index part with
    | .ok d' => d'.placeAll (index + 1) rest
    | .error e => .error e

end Draft

/-- The pattern of a spec, called `name`. -/
def compile (name : Option String) (s : Spec) : Except CompileError Pattern :=
  if s.parts = [] then .error .emptyPattern
  else if Word.size < s.totalWidth then .error (.tooLong s.totalWidth Word.size)
  else
    match (Draft.start s.totalWidth).placeAll 0 s.parts with
    | .error e => .error e
    | .ok d =>
      .ok {
        name
        length := s.totalWidth
        setMask := d.setMask
        fixedMask := d.fixedMask
        specificity := s.parts.length - d.captures.length
        captures := d.captures
      }

end Spec
end WordPattern
