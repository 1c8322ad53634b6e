/-
Patterns written into limited room.

The bits are written one by one, the most significant first, and the
annotation after them. Each of these writings is the last one if there is no
room for it.
-/
import WordPattern.Pattern.Render
import WordPattern.Sink

namespace WordPattern
namespace Pattern

/-- Writes the lowest `n` bits, the most significant first. -/
def writeBits (p : Pattern) : Nat → Sink → Sink × Bool
  | 0, s => (s, true)
  | pos + 1, s =>
    if p.fixedMask.getBit pos then
      let bit := if p.setMask.getBit pos then '1' else '0'
      Sink.andThen (s.write (String.singleton bit)) (p.writeBits pos)
    else
      let symbol := ((p.captureAt? pos).map Capture.symbol).getD 'x'
      Sink.andThen (s.write (String.singleton symbol)) (p.writeBits pos)

/-- Writes a form. -/
def write (p : Pattern) (annotated : Bool) (s : Sink) : Sink × Bool :=
  Sink.andThen (p.writeBits p.length s) fun s' => if annotated then s'.writeAll p.notePieces else (s', true)

end Pattern
end WordPattern
