/-
Patterns and groups by definition: a table of named texts.

A group's definition is converted entry by entry. The first entry that is no
pattern decides the error, which names it; a definition without entries is no
group.
-/
import WordPattern.Batch
import WordPattern.Error

namespace WordPattern

/-- A pattern's text, and the name to give the pattern. -/
structure PatternDef where
  name : Option String
  pattern : String
  deriving DecidableEq

/-- The definitions of a group's patterns. -/
structure GroupDef where
  patterns : List PatternDef
  deriving DecidableEq

/-- The pattern of an entry, called as the entry is. -/
def PatternDef.toPattern (d : PatternDef) : Except Error Pattern := Pattern.ofText d.name d.pattern

/-- The pattern of the entry at position `index`. -/
def PatternDef.build (index : Nat) (d : PatternDef) : Except Error Pattern :=
  d.toPattern.mapError (.entry index d.name)

/-- The group of a definition, put into order by `σ`. -/
def GroupDef.toGroupBy (σ : Arrangement) (d : GroupDef) : Except Error Group :=
  match makeAll PatternDef.build 0 d.patterns with
  | .error e => .error e
  | .ok ps => (Group.ofListBy σ ps).mapError .group

/-- Ties stay in the order of the entries. -/
def GroupDef.toGroup (d : GroupDef) : Except Error Group := d.toGroupBy .stable

end WordPattern
