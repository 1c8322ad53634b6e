/-
Characters and strings in quotes, as messages show them.

Inside the quotes a backslash stands before the enclosing kind of quote,
before a backslash, and in `\0`, `\t`, `\r` and `\n`. A character that shows
nothing of its own, or that would be drawn onto the one before it, appears
as its code point in hexadecimal, `\u{...}`. Everything else appears as it
is, the other kind of quote included.
-/
import WordPattern.Text.Classes

namespace WordPattern.Text

/-- A code point in lower-case hexadecimal, without leading zeros. -/
def hexEscape (ch : Char) : List Char := "\\u\x7b".toList ++ Nat.toDigits 16 ch.toNat ++ ['\x7d']

/-- A character as it appears between two `quote`s. -/
def escape (quote ch : Char) : List Char :=
  if ch = '\x00' then ['\\', '0']
  else if ch = '\t' then ['\\', 't']
  else if ch = '\r' then ['\\', 'r']
  else if ch = '\n' then ['\\', 'n']
  else if ch = '\\' ∨ ch = quote then ['\\', ch]
  else if isExtending ch || isUnprintable ch then hexEscape ch
  else [ch]

/-- A character in single quotes. -/
def quoteChar (ch : Char) : String := String.ofList ('\'' :: escape '\'' ch ++ ['\''])

/-- A string in double quotes. -/
def quoteString (s : String) : String := String.ofList ('"' :: s.toList.flatMap (escape '"') ++ ['"'])

end WordPattern.Text
