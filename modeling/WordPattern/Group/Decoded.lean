/-
A word dispatched to a pattern, with the values of the pattern's fields.

The values are the fields' in order. `get` looks one up by name, and `toMap`
lists the named ones by ascending name, each name once; where several fields
share a name the first one counts for both.
-/
import WordPattern.Group

namespace WordPattern

/-- What a group makes of a word. -/
structure Decoded where
  pattern : Pattern
  values : List Word
  deriving DecidableEq

/-- The pattern that `w` goes to and the values it captures. -/
def Group.decode (g : Group) (w : Word) : Option Decoded :=
  (g.find w).map fun p => ⟨p, p.values w⟩

theorem Group.decode_eq_some_iff {g : Group} {w : Word} {d : Decoded} :
    g.decode w = some d ↔ g.find w = some d.pattern ∧ d.pattern.capture w = some d.values := by
  rw [decode, Option.map_eq_some_iff]
  constructor
  · rintro ⟨p, hp, rfl⟩
    exact ⟨hp, Pattern.capture_eq_some_iff.mpr ⟨(find_mem hp).2, rfl⟩⟩
  · intro ⟨hp, hvalues⟩
    refine ⟨d.pattern, hp, ?_⟩
    rw [(Pattern.capture_eq_some_iff.mp hvalues).2]

namespace Decoded

/-- The position of the first field called `name`. -/
def position? (d : Decoded) (name : String) : Option Nat :=
  d.pattern.captures.findIdx? fun c => c.name == some name

/-- The value of the first field called `name`. -/
def get (d : Decoded) (name : String) : Option Word := (d.position? name).bind fun i => d.values[i]?

/-- `(name, value)` put where it belongs among entries by ascending name,
unless `name` is there already. -/
def insertNew (name : String) (value : Word) : List (String × Word) → List (String × Word)
  | [] => [(name, value)]
  | (key, old) :: rest =>
    if name < key then (name, value) :: (key, old) :: rest
    else if name = key then (key, old) :: rest
    else (key, old) :: insertNew name value rest

/-- A field is entered under its name, if it has one. -/
def enter (entries : List (String × Word)) (field : Capture × Word) : List (String × Word) :=
  match field.1.name with
  | some name => insertNew name field.2 entries
  | none => entries

/-- The named fields, each name with the value of its first field. -/
def toMap (d : Decoded) : List (String × Word) := (d.pattern.captures.zip d.values).foldl enter []

end Decoded
end WordPattern
