/-
The value of a JSON text, assembled token by token.

What has been read is one of the `State`s below, together with the arrays
and objects that are still open around it, the innermost first. A text is a
document when its tokens lead from the start to one finished value.
-/
import WordPattern.Json.Token

namespace WordPattern.Json

/-- An open array or object, and in an object the key whose value comes
next. What it holds is kept with the latest first; a key that is undecodable
is none. -/
inductive Frame where
  | array (items : List Json)
  | object (members : List (Option String × Json)) (key : Option String)

/-- What comes next. -/
inductive State where
  /-- A value. -/
  | value (outer : List Frame)
  /-- The first item of an array, or its end. -/
  | arrayStart (outer : List Frame)
  /-- The first key of an object, or its end. -/
  | objectStart (outer : List Frame)
  /-- A comma and another item, or the array's end. -/
  | arrayRest (items : List Json) (outer : List Frame)
  /-- A comma and another member, or the object's end. -/
  | objectRest (members : List (Option String × Json)) (outer : List Frame)
  /-- A key. -/
  | nextKey (members : List (Option String × Json)) (outer : List Frame)
  /-- The colon after a key. -/
  | colon (members : List (Option String × Json)) (key : Option String) (outer : List Frame)
  /-- Nothing. -/
  | done (value : Json)

/-- The object with the given members, the latest first. -/
def ofMembers (members : List (Option String × Json)) : Json :=
  match members.reverse.mapM fun (key, value) => key.map (·, value) with
  | some members => .object members
  | none => .undecodable

namespace State

/-- The state after a value. -/
def finish (value : Json) : List Frame → State
  | [] => .done value
  | .array items :: outer => .arrayRest (value :: items) outer
  | .object members key :: outer => .objectRest ((key, value) :: members) outer

/-- The state after the first token of a value. -/
def begin? (outer : List Frame) : Token → Option State
  | .openArray => some (.arrayStart outer)
  | .openObject => some (.objectStart outer)
  | .null => some (finish .null outer)
  | .bool b => some (finish (.bool b) outer)
  | .number n => some (finish (.number n) outer)
  | .string (some s) => some (finish (.string s) outer)
  | .string none => some (finish .undecodable outer)
  | .closeArray | .closeObject | .comma | .colon => none

/-- The state after a token; none if the token cannot come here. -/
def step? : State → Token → Option State
  | .value outer, t => begin? outer t
  | .arrayStart outer, .closeArray => some (finish (.array []) outer)
  | .arrayStart outer, t => begin? (.array [] :: outer) t
  | .objectStart outer, .closeObject => some (finish (.object []) outer)
  | .objectStart outer, .string key => some (.colon [] key outer)
  | .arrayRest items outer, .comma => some (.value (.array items :: outer))
  | .arrayRest items outer, .closeArray => some (finish (.array items.reverse) outer)
  | .objectRest members outer, .comma => some (.nextKey members outer)
  | .objectRest members outer, .closeObject => some (finish (ofMembers members) outer)
  | .nextKey members outer, .string key => some (.colon members key outer)
  | .colon members key outer, .colon => some (.value (.object members key :: outer))
  | _, _ => none

end State

/-- The value whose tokens these are. -/
def ofTokens? (tokens : List Token) : Option Json :=
  match tokens.foldlM State.step? (.value []) with
  | some (.done value) => some value
  | _ => none

/-- The value that a text consists of, white space around it apart. -/
def ofText? (text : String) : Option Json := (tokens? text.toList).bind ofTokens?

end WordPattern.Json
