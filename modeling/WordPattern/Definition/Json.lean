/-
Definitions as JSON values.

A pattern's definition is an object with a string under `pattern` and a
string or null, or nothing, under `name`; a group's is an object with an
array of such definitions under `patterns`. Members are read in order: a field
is read where its key comes up, which it may not do twice, and other keys are
passed over. Either may also be an array of its fields in order, all of them. A
definition is written as an object with every field.
-/
import WordPattern.Definition
import WordPattern.Json

namespace WordPattern

/-- What a value was expected to be. -/
inductive Shape where
  | text
  | sequence
  | patternDef
  | groupDef
  deriving DecidableEq

/-- A shape as messages name it. -/
def Shape.describe : Shape → String
  | .text => "a string"
  | .sequence => "a sequence"
  | .patternDef => "struct PatternDef"
  | .groupDef => "struct GroupDef"

/-- Why a value is no definition. -/
inductive Misfit where
  | missing (field : String)
  | repeated (field : String)
  /-- A value of another kind than expected. -/
  | kind (found : Json) (expected : Shape)
  /-- An array with too few fields: the one at position `found` has none. -/
  | short (found : Nat) (expected : Shape) (size : Nat)
  /-- An array of `found` items, more than there are fields. -/
  | long (found : Nat)

/-- What is reported of a misfit. -/
def Misfit.message : Misfit → String
  | .missing field => s!"missing field `{field}`"
  | .repeated field => s!"duplicate field `{field}`"
  | .kind found expected => s!"invalid type: {found.describe}, expected {expected.describe}"
  | .short found expected 1 => s!"invalid length {found}, expected {expected.describe} with 1 element"
  | .short found expected size =>
    s!"invalid length {found}, expected {expected.describe} with {size} elements"
  | .long found => s!"invalid length {found}, expected fewer elements in array"

namespace Json

/-- A member read for the field `key`, of which `slot` was read before it.
Members with other keys are passed over. -/
def readField {α : Type} (key : String) (read : Json → Except Misfit α) (slot : Option α)
    (member : String × Json) : Except Misfit (Option α) :=
  if member.1 = key then
    match slot with
    | none => (read member.2).map some
    | some _ => .error (.repeated key)
  else .ok slot

/-- A string, and nothing that could be made one. -/
def toText : Json → Except Misfit String
  | .string s => .ok s
  | other => .error (.kind other .text)

/-- A name, null for none. -/
def toName : Json → Except Misfit (Option String)
  | .null => .ok none
  | other => other.toText.map some

end Json

namespace PatternDef

/-- What has been read of an object. -/
structure Fields where
  name : Option (Option String)
  pattern : Option String

namespace Fields

/-- Nothing read yet. -/
def start : Fields := ⟨none, none⟩

/-- One member more, which is for one field at most. -/
def read (f : Fields) (member : String × Json) : Except Misfit Fields := do
  let name ← Json.readField "name" Json.toName f.name member
  let pattern ← Json.readField "pattern" Json.toText f.pattern member
  return ⟨name, pattern⟩

/-- What all members come to: a name that is absent is none, and a pattern must
be there. -/
def finish (f : Fields) : Except Misfit PatternDef :=
  match f.pattern with
  | some pattern => .ok ⟨f.name.getD none, pattern⟩
  | none => .error (.missing "pattern")

end Fields

/-- The first fault in the order of the members is reported, and then what is
missing. -/
def ofJson : Json → Except Misfit PatternDef
  | .object members => do
    let f ← members.foldlM Fields.read .start
    f.finish
  | .array [] => .error (.short 1 .patternDef 2)
  | .array [name] => do
    let _ ← name.toName
    throw (.short 1 .patternDef 2)
  | .array (name :: pattern :: rest) => do
    let name ← name.toName
    let pattern ← pattern.toText
    if rest = [] then return ⟨name, pattern⟩ else throw (.long (rest.length + 2))
  | other => .error (.kind other .patternDef)

/-- An absent name is written as null. -/
def toJson (d : PatternDef) : Json :=
  .object [("name", match d.name with | some name => .string name | none => .null),
    ("pattern", .string d.pattern)]

@[simp] theorem ofJson_toJson (d : PatternDef) : ofJson d.toJson = .ok d := by
  obtain ⟨_ | name, pattern⟩ := d <;> rfl

end PatternDef

namespace GroupDef

/-- A definition for each item of an array; the first item that is none
decides the fault. -/
def patternsOfJson : Json → Except Misfit GroupDef
  | .array items => (makeAll (fun _ => PatternDef.ofJson) 0 items).map (⟨·⟩)
  | other => .error (.kind other .sequence)

/-- An array is read up to its first item before its length is looked at. -/
def ofJson : Json → Except Misfit GroupDef
  | .object members => do
    match ← members.foldlM (Json.readField "patterns" patternsOfJson) none with
    | some d => return d
    | none => throw (.missing "patterns")
  | .array [] => .error (.short 0 .groupDef 1)
  | .array (patterns :: rest) => do
    let d ← patternsOfJson patterns
    if rest = [] then return d else throw (.long (rest.length + 1))
  | other => .error (.kind other .groupDef)

/-- All entries, in their order. -/
def toJson (d : GroupDef) : Json := .object [("patterns", .array (d.patterns.map PatternDef.toJson))]

@[simp] theorem ofJson_toJson (d : GroupDef) : ofJson d.toJson = .ok d := by
  have h : makeAll (fun _ => PatternDef.ofJson) 0 (d.patterns.map PatternDef.toJson) = .ok d.patterns := by
    refine makeAll_eq_ok_iff.mpr ⟨by simp, fun i a b ha hb => ?_⟩
    simp only [List.getElem?_map, hb, Option.map_some, Option.some.injEq] at ha
    simp [← ha]
  have hread : patternsOfJson (.array (d.patterns.map PatternDef.toJson)) = .ok d := by
    simp [patternsOfJson, h, Except.map]
  simp only [toJson, ofJson, List.foldlM_cons, List.foldlM_nil, Json.readField, ↓reduceIte, hread]
  rfl

end GroupDef
end WordPattern
