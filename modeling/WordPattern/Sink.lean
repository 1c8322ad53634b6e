/-
Writing into limited room.

A sink takes characters until its room is used up. A piece that does not fit
is taken as far as there is room, and writing stops there: later pieces are
not offered. How a text is cut into pieces does not matter: `write_append`
says it of two pieces and `writeAll_eq` of any number.
-/
namespace WordPattern

/-- Room for characters, and the characters in it. -/
structure Sink where
  /-- How many characters it still takes. -/
  room : Nat
  /-- What it has taken. -/
  taken : List Char
  deriving DecidableEq

namespace Sink

/-- An empty sink that takes `room` characters. -/
def ofRoom (room : Nat) : Sink := ⟨room, []⟩

/-- Offers a piece; the flag says whether all of it was taken. -/
def write (s : Sink) (piece : String) : Sink × Bool :=
  (⟨s.room - piece.length, s.taken ++ piece.toList.take s.room⟩, decide (piece.length ≤ s.room))

/-- One writing after another, which is only tried if all of the first was
taken. -/
def andThen (written : Sink × Bool) (next : Sink → Sink × Bool) : Sink × Bool :=
  match written with
  | (s, true) => next s
  | (s, false) => (s, false)

/-- Offers pieces in order up to the first that is not taken whole. -/
def writeAll (s : Sink) : List String → Sink × Bool
  | [] => (s, true)
  | piece :: rest =>
    match s.write piece with
    | (s', true) => s'.writeAll rest
    | (s', false) => (s', false)

theorem writeAll_cons (s : Sink) (piece : String) (rest : List String) :
    s.writeAll (piece :: rest) = andThen (s.write piece) fun s' => s'.writeAll rest := rfl

theorem write_empty (s : Sink) : s.write "" = (s, true) := by
  simp [write]

/-- **Two pieces come to one**: there is room for both when there is room for
the second behind the first, and what is taken of them is what is taken of the
whole. -/
theorem write_append (s : Sink) (first second : String) :
    andThen (s.write first) (fun s' => s'.write second) = s.write (first ++ second) := by
  by_cases h : first.length ≤ s.room
  · have hfits : second.length ≤ s.room - first.length ↔ first.length + second.length ≤ s.room := by omega
    simp only [write, andThen, h, decide_true, hfits, String.length_append, String.toList_append,
      List.append_assoc, List.take_append, String.length_toList, Nat.sub_sub]
  · have hwhole : ¬ first.length + second.length ≤ s.room := by omega
    simp only [write, andThen, h, hwhole, decide_false, String.length_append, String.toList_append]
    rw [List.take_append_of_le_length (by rw [String.length_toList]; omega)]
    simp only [Prod.mk.injEq, Sink.mk.injEq, and_true]
    omega

/-- **Pieces come to the text they make up.** -/
theorem writeAll_eq (s : Sink) (pieces : List String) : s.writeAll pieces = s.write (String.join pieces) := by
  induction pieces generalizing s with
  | nil => rw [writeAll, String.join_nil, write_empty]
  | cons piece rest ih =>
    rw [writeAll_cons, String.join_cons, ← write_append]
    simp only [ih]

end Sink
end WordPattern
