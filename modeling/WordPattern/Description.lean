/-
Values spelled out field by field.

A `Term` is the tree of such a spelling: a word, a record with named fields,
an application with positional arguments, or a list. Every type of the
library that can be spelled out has a `toTerm`.
-/
import WordPattern.Definition
import WordPattern.Group.Decoded

namespace WordPattern

open Text (quoteChar quoteString)

/-- A spelling before it is written out. -/
inductive Term where
  | word (text : String)
  | record (name : String) (fields : List (String × Term))
  | apply (name : String) (arguments : List Term)
  | list (items : List Term)

namespace Term

mutual

/-- A term on one line. A record has braces with a space inside, and the other
kinds have no space inside their brackets. -/
def render : Term → String
  | .word text => text
  | .record name fields => name ++ " \x7b " ++ ", ".intercalate (renderFields fields) ++ " \x7d"
  | .apply name arguments => name ++ "(" ++ ", ".intercalate (renderItems arguments) ++ ")"
  | .list items => "[" ++ ", ".intercalate (renderItems items) ++ "]"

/-- The items of a list, each on its own. -/
def renderItems : List Term → List String
  | [] => []
  | item :: rest => render item :: renderItems rest

/-- The fields of a record, each with its name before it. -/
def renderFields : List (String × Term) → List String
  | [] => []
  | (name, value) :: rest => (name ++ ": " ++ render value) :: renderFields rest

end

/-- A number, in decimal. -/
def nat (n : Nat) : Term := .word (toString n)

/-- A word, as the number that it is. -/
def bits (w : Word) : Term := nat w.toNat

/-- A character in single quotes. -/
def char (ch : Char) : Term := .word (quoteChar ch)

/-- A string in double quotes. -/
def string (s : String) : Term := .word (quoteString s)

/-- A value that may be missing. -/
def option {α : Type} (toTerm : α → Term) : Option α → Term
  | none => .word "None"
  | some a => .apply "Some" [toTerm a]

/-- A result or the error in its place. -/
def except {ε α : Type} (errorTerm : ε → Term) (toTerm : α → Term) : Except ε α → Term
  | .ok a => .apply "Ok" [toTerm a]
  | .error e => .apply "Err" [errorTerm e]

end Term

open Term

/-! ## Patterns and groups -/

/-- The value of a literal, or the width and the name of a field. -/
def Part.toTerm : Part → Term
  | .literal bit => .apply "Literal" [nat bit.toNat]
  | .field width name => .record "Variable" [("width", nat width.toNat), ("name", option string name)]

/-- All parts, from the top down. -/
def Spec.toTerm (s : Spec) : Term := .record "PatternSpec" [("parts", .list (s.parts.map Part.toTerm))]

/-- Where a field lies and what it is called. -/
def Capture.toTerm (c : Capture) : Term :=
  .record "Capture" [("name", option string c.name), ("left_bit", nat c.leftBit), ("width", nat c.width)]

/-- Everything that matching needs; the masks are written in decimal. -/
def Pattern.toTerm (p : Pattern) : Term :=
  .record "CompiledPattern"
    [("name", option string p.name), ("length", nat p.length), ("is_set_mask", bits p.setMask),
      ("non_var_mask", bits p.fixedMask), ("specificity", nat p.specificity),
      ("captures", .list (p.captures.map Capture.toTerm))]

/-- The patterns in the order in which they are tried. -/
def Group.toTerm (g : Group) : Term :=
  .record "PatternGroup" [("patterns", .list (g.patterns.map Pattern.toTerm))]

/-- The pattern that won, and what it captured. -/
def Decoded.toTerm (d : Decoded) : Term :=
  .record "Decoded" [("pattern", d.pattern.toTerm), ("values", .list (d.values.map bits))]

/-! ## Errors -/

/-- Which character of a text is at fault, and its index. -/
def TextError.toTerm : TextError → Term
  | .empty => .word "Empty"
  | .invalidCharacter ch index => .record "InvalidCharacter" [("ch", char ch), ("index", nat index)]
  | .repeatedSeparator index => .record "RepeatedSeparator" [("index", nat index)]
  | .reusedLetter name index => .record "DuplicateVariable" [("name", char name), ("index", nat index)]
  | .fieldTooWide name index max =>
    .record "VariableTooWide" [("name", char name), ("index", nat index), ("max", nat max)]

/-- What is wrong with a spec, and the index of the part. -/
def CompileError.toTerm : CompileError → Term
  | .emptyPattern => .word "EmptyPattern"
  | .tooLong length max => .record "TooLong" [("length", nat length), ("max", nat max)]
  | .invalidLiteral index bit => .record "InvalidLiteral" [("index", nat index), ("bit", nat bit.toNat)]
  | .emptyField index => .record "ZeroWidthVariable" [("index", nat index)]

/-- A group is refused for one reason only. -/
def GroupError.toTerm : GroupError → Term
  | .empty => .word "Empty"

/-- An error with its cause spelled out inside it. -/
def Error.toTerm : Error → Term
  | .text pattern cause => .record "Parse" [("pattern", string pattern), ("source", cause.toTerm)]
  | .compile pattern cause => .record "Compile" [("pattern", string pattern), ("source", cause.toTerm)]
  | .group cause => .apply "Group" [cause.toTerm]
  | .entry index name cause =>
    .record "Entry" [("index", nat index), ("name", option string name), ("source", cause.toTerm)]

/-! ## Definitions -/

/-- An entry of a table. -/
def PatternDef.toTerm (d : PatternDef) : Term :=
  .record "PatternDef" [("name", option string d.name), ("pattern", string d.pattern)]

/-- A table, entry by entry. -/
def GroupDef.toTerm (d : GroupDef) : Term :=
  .record "GroupDef" [("patterns", .list (d.patterns.map PatternDef.toTerm))]

end WordPattern
