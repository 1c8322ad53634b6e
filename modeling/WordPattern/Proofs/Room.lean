/-
Where the room ends. Writing a pattern is offering the pieces of its text in
order, `write_eq_writeAll`, since each writing is the last one if it fails.
-/
import WordPattern.Pattern.Write

namespace WordPattern
namespace Sink

theorem writeAll_append (s : Sink) (ps qs : List String) :
    s.writeAll (ps ++ qs) = andThen (s.writeAll ps) fun s' => s'.writeAll qs := by
  simp only [writeAll_eq, String.join_append, write_append]

theorem andThen_done (written : Sink × Bool) : andThen written (fun s => (s, true)) = written := by
  obtain ⟨s, ok⟩ := written
  cases ok <;> rfl

end Sink

namespace Pattern

variable (p : Pattern) (annotated : Bool)

/-- A bit is written as `symbolAt` has it, whichever way that is. -/
theorem writeBits_succ (pos : Nat) (s : Sink) :
    p.writeBits (pos + 1) s =
      Sink.andThen (s.write (String.singleton (p.symbolAt pos))) (p.writeBits pos) := by
  rw [writeBits, symbolAt]
  split <;> rfl

theorem writeBits_eq_writeAll (n : Nat) (s : Sink) :
    p.writeBits n s = s.writeAll (((List.range n).reverse.map p.symbolAt).map String.singleton) := by
  induction n generalizing s with
  | zero => rfl
  | succ pos ih =>
    -- The bit above the lowest `pos` is written before them.
    rw [writeBits_succ, List.range_succ, List.reverse_append, List.reverse_singleton, List.singleton_append,
      List.map_cons, List.map_cons, Sink.writeAll_cons, funext ih]

/-- **Writing a pattern is offering its pieces in order**, up to the first that
there is no room for. -/
theorem write_eq_writeAll (s : Sink) : p.write annotated s = s.writeAll (p.pieces annotated) := by
  rw [write, writeBits_eq_writeAll, pieces]
  cases annotated with
  | false => exact Sink.andThen_done _
  | true => exact (Sink.writeAll_append s p.plainPieces p.notePieces).symm

/-! ## The text of the pieces -/

theorem join_singletons (chars : List Char) : String.join (chars.map String.singleton) = String.ofList chars := by
  induction chars with
  | nil => rfl
  | cons ch chars ih => rw [List.map_cons, String.join_cons, ih, String.ofList_cons]

theorem join_pieces : String.join (p.pieces annotated) = if annotated then p.renderAnnotated else p.render := by
  have hplain : String.join p.plainPieces = p.render := join_singletons p.symbols
  cases annotated with
  | false => exact hplain
  | true => exact String.join_append.trans (congrArg (· ++ String.join p.notePieces) hplain)

/-- So the text is written as if it were one piece. -/
theorem write_eq (s : Sink) :
    p.write annotated s = s.write (if annotated then p.renderAnnotated else p.render) := by
  rw [write_eq_writeAll, Sink.writeAll_eq, join_pieces]

/-- **A rendering that runs out of room is cut there, and says so.** A sink
takes as many of its first characters as there is room for, and writing succeeds
exactly when that is all of them. -/
theorem write_until_full (room : Nat) :
    let text := if annotated then p.renderAnnotated else p.render
    let written := p.write annotated (.ofRoom room)
    written.1.taken = text.toList.take room ∧ written.1.taken.length = min room text.length ∧
      (written.2 = true ↔ text.length ≤ room) := by
  intro text written
  have hwritten : written = (Sink.ofRoom room).write text := p.write_eq annotated _
  have htaken : written.1.taken = text.toList.take room := by
    rw [hwritten]
    exact List.nil_append _
  refine ⟨htaken, ?_, ?_⟩
  · rw [htaken, List.length_take, String.length_toList]
  · rw [hwritten]
    exact decide_eq_true_iff

/-- The annotation is cut inside the first row of digits. -/
example :
    let p : Pattern := ⟨none, 3, 0b100, 0b101, 2, [⟨some "rd", 1, 1⟩]⟩
    p.write true (.ofRoom 14) = (⟨0, "1r0 (is_set=10".toList⟩, false) := by decide

end Pattern
end WordPattern
