/-
JSON values written without white space.

In a string a backslash stands before the quote and the backslash, and in
`\b`, `\f`, `\n`, `\r` and `\t`; any other character below the space is
written as its code point, `\u` and four hexadecimal digits. Everything else
is written as it is.
-/
import WordPattern.Json

namespace WordPattern.Json

/-- A character inside a string. -/
def escape (ch : Char) : List Char :=
  if ch = '"' ∨ ch = '\\' then ['\\', ch]
  else if ch = '\x08' then ['\\', 'b']
  else if ch = '\x0c' then ['\\', 'f']
  else if ch = '\n' then ['\\', 'n']
  else if ch = '\r' then ['\\', 'r']
  else if ch = '\t' then ['\\', 't']
  else if ch.toNat < 0x20 then ['\\', 'u'] ++ (Nat.toDigits 16 ch.toNat).leftpad 4 '0'
  else [ch]

/-- A string in quotes. -/
def compactString (s : String) : String := String.ofList ('"' :: s.toList.flatMap escape ++ ['"'])

mutual

/-- The shortest text of a value. An undecodable value is written as null. -/
def compact : Json → String
  | .null => "null"
  | .bool true => "true"
  | .bool false => "false"
  | .number n => String.ofList n.text
  | .string s => compactString s
  | .array items => "[" ++ ",".intercalate (compactItems items) ++ "]"
  | .object members => "\x7b" ++ ",".intercalate (compactMembers members) ++ "\x7d"
  | .undecodable => "null"

/-- The items of an array, each on its own. -/
def compactItems : List Json → List String
  | [] => []
  | item :: rest => compact item :: compactItems rest

/-- The members of an object, each with its key before it. -/
def compactMembers : List (String × Json) → List String
  | [] => []
  | (key, value) :: rest => (compactString key ++ ":" ++ compact value) :: compactMembers rest

end
end WordPattern.Json
