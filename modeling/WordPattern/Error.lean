/-
Everything that can go wrong on the way from a text to a group, and the
message for it.

Only building can fail: a word that matches nothing is an answer, not an
error. An error that comes from a text carries the text, and an error that
comes from an entry of a group's definition carries the entry's position and
name. `causes` lists the messages of what an error was caused by, the nearest
cause first.
-/
import WordPattern.Group
import WordPattern.Pattern.Compile
import WordPattern.Spec.Text
import WordPattern.Text.Quoted

namespace WordPattern

open Text (quoteChar quoteString)

/-- An index counts the characters of the text. -/
def TextError.message : TextError → String
  | .empty => "pattern is empty"
  | .invalidCharacter ch index => s!"invalid character {quoteChar ch} at index {index}"
  | .repeatedSeparator index => s!"repeated separator at index {index}"
  | .reusedLetter name index =>
    s!"variable {quoteChar name} reused at index {index}; each name must form one contiguous run"
  | .fieldTooWide name index max => s!"variable {quoteChar name} exceeds {max} bits at index {index}"

/-- An index counts the parts of the spec. -/
def CompileError.message : CompileError → String
  | .emptyPattern => "pattern has no parts"
  | .tooLong length max => s!"pattern is {length} bits long, at most {max} are allowed"
  | .invalidLiteral index bit => s!"literal part {index} has bit value {bit}, expected 0 or 1"
  | .emptyField index => s!"variable part {index} has zero width"

/-- The message for an empty list of patterns. -/
def GroupError.message : GroupError → String
  | .empty => "pattern group needs at least one pattern"

/-- Why something could not be built. -/
inductive Error where
  /-- The text `pattern` is no spec. -/
  | text (pattern : String) (cause : TextError)
  /-- The spec that the text `pattern` stands for is no pattern. -/
  | compile (pattern : String) (cause : CompileError)
  /-- The patterns are no group. -/
  | group (cause : GroupError)
  /-- The entry at position `index` of a group's definition is no pattern. -/
  | entry (index : Nat) (name : Option String) (cause : Error)
  deriving DecidableEq

namespace Error

/-- The text of an error is quoted, and the name of an entry is not. -/
def message : Error → String
  | .text pattern cause => s!"invalid pattern {quoteString pattern}: {cause.message}"
  | .compile pattern cause => s!"cannot compile pattern {quoteString pattern}: {cause.message}"
  | .group cause => cause.message
  | .entry index (some name) cause => s!"group entry {index} ({name}): {cause.message}"
  | .entry index none cause => s!"group entry {index}: {cause.message}"

/-- The messages of an error's causes, the nearest first. An error about a
group is its cause under another type, so it has none. -/
def causes : Error → List String
  | .text _ cause => [cause.message]
  | .compile _ cause => [cause.message]
  | .group _ => []
  | .entry _ _ cause => cause.message :: cause.causes

end Error

/-- The pattern that a text stands for, called `name`. -/
def Pattern.ofText (name : Option String) (text : String) : Except Error Pattern :=
  match Spec.ofText text with
  | .error e => .error (.text text e)
  | .ok spec =>
    match spec.compile name with
    | .error e => .error (.compile text e)
    | .ok p => .ok p

theorem Pattern.ofText_eq_ok_iff {name : Option String} {text : String} {p : Pattern} :
    Pattern.ofText name text = .ok p ↔
      ∃ spec, Spec.ofText text = .ok spec ∧ spec.compile name = .ok p := by
  simp only [Pattern.ofText]
  split
  · simp_all
  · split <;> simp_all

end WordPattern
