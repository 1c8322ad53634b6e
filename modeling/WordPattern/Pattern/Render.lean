/-
Patterns written as text.

The plain form has one character for each bit, most significant first: `0`
or `1` for a literal, and for a bit of a field the first character of its
name, or `x` when the field has no name or that character is no ASCII
letter. The annotated form adds the masks in binary, as many digits as the
pattern has bits, and the specificity. Both are written in pieces, so that
`Sink` can say what becomes of them when there is no room.
-/
import WordPattern.Pattern

namespace WordPattern

/-- The character for a field's bits. -/
def Capture.symbol (c : Capture) : Char :=
  match c.name.bind (·.toList.head?) with
  | some ch => if ch.isAlpha then ch else 'x'
  | none => 'x'

namespace Pattern

/-- The first capture that covers bit `pos`. -/
def captureAt? (p : Pattern) (pos : Nat) : Option Capture := p.captures.find? (·.covers pos)

/-- The character for bit `pos`. -/
def symbolAt (p : Pattern) (pos : Nat) : Char :=
  if p.fixedMask.getBit pos then (if p.setMask.getBit pos then '1' else '0')
  else ((p.captureAt? pos).map Capture.symbol).getD 'x'

/-- One character for each bit, the most significant first. -/
def symbols (p : Pattern) : List Char := (List.range p.length).reverse.map p.symbolAt

/-- The pieces of the plain form. -/
def plainPieces (p : Pattern) : List String := p.symbols.map String.singleton

/-- The pieces that the annotated form adds. -/
def notePieces (p : Pattern) : List String :=
  [" (is_set=", String.ofList (p.setMask.binary p.length), ", non_var=",
    String.ofList (p.fixedMask.binary p.length), ", specificity=", toString p.specificity, ")"]

/-- The pieces of a form. -/
def pieces (p : Pattern) (annotated : Bool) : List String :=
  if annotated then p.plainPieces ++ p.notePieces else p.plainPieces

/-- The plain form. -/
def render (p : Pattern) : String := String.ofList p.symbols

/-- The annotated form. -/
def renderAnnotated (p : Pattern) : String := p.render ++ String.join p.notePieces

@[simp] theorem length_symbols (p : Pattern) : p.symbols.length = p.length := by
  simp [symbols]

@[simp] theorem length_render (p : Pattern) : p.render.length = p.length := by
  simp [render]

end Pattern
end WordPattern
