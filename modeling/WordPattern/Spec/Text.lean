/-
Specs written as text.

A text is read from left to right, most significant bit first. `0` and `1`
are literals. A letter is one bit of the field it names, and repeating it
widens that field; a letter names one contiguous run only. `_` separates and
covers nothing: it does not end a run, and two in a row are refused.

Reading keeps a `Progress` and stops at the first character that cannot
follow what has been read. `readAll_append` says that reading a text is
reading its first part and then the rest.
-/
import WordPattern.Spec
import WordPattern.Word

namespace WordPattern

/-- Why a text is no spec. An `index` counts characters. -/
inductive TextError where
  /-- The text holds no bit: it is empty, or a lone separator. -/
  | empty
  /-- A character other than `0`, `1`, `_` and the ASCII letters. -/
  | invalidCharacter (ch : Char) (index : Nat)
  /-- A separator directly after a separator. -/
  | repeatedSeparator (index : Nat)
  /-- A letter that comes back after its run has ended. -/
  | reusedLetter (name : Char) (index : Nat)
  /-- A run wider than a word. -/
  | fieldTooWide (name : Char) (index max : Nat)
  deriving DecidableEq

namespace Spec

/-- A run of one letter that the next character may widen. -/
structure Run where
  letter : Char
  width : Nat
  deriving DecidableEq

/-- The field a run stands for once it has ended. -/
def Run.part (run : Run) : Part := .field (.ofNat run.width) (some (String.singleton run.letter))

/-- What has been read of a text. -/
structure Progress where
  /-- The parts that can change no more, the latest first. -/
  closed : List Part
  /-- The run that is still open. -/
  run : Option Run
  /-- The letters that have named a field. -/
  letters : List Char
  /-- Whether the last character was a separator. -/
  separated : Bool
  deriving DecidableEq

namespace Progress

/-- Nothing read yet. -/
def start : Progress := ⟨[], none, [], false⟩

/-- The parts read so far with the open run ended, the latest first. -/
def close (p : Progress) : List Part := (p.run.map Run.part).toList ++ p.closed

/-- A literal ends the open run. -/
def readLiteral (p : Progress) (bit : UInt8) : Progress :=
  { p with closed := .literal bit :: p.close, run := none, separated := false }

/-- A separator is refused after a separator, and leaves the run open. -/
def readSeparator (p : Progress) (index : Nat) : Except TextError Progress :=
  if p.separated then .error (.repeatedSeparator index) else .ok { p with separated := true }

/-- A letter other than the open run's starts a run, unless it has named a
field before. -/
def startRun (p : Progress) (index : Nat) (ch : Char) : Except TextError Progress :=
  if ch ∈ p.letters then .error (.reusedLetter ch index)
  else .ok ⟨p.close, some ⟨ch, 1⟩, ch :: p.letters, false⟩

/-- The open run's letter widens it, up to a word. -/
def widenRun (p : Progress) (index : Nat) (run : Run) : Except TextError Progress :=
  if run.width = Word.size then .error (.fieldTooWide run.letter index Word.size)
  else .ok { p with run := some { run with width := run.width + 1 }, separated := false }

/-- A letter widens the open run if it is that run's, and starts one if not. -/
def readLetter (p : Progress) (index : Nat) (ch : Char) : Except TextError Progress :=
  match p.run with
  | some run => if run.letter = ch then p.widenRun index run else p.startRun index ch
  | none => p.startRun index ch

/-- The character `ch` at position `index`. -/
def read (p : Progress) (index : Nat) (ch : Char) : Except TextError Progress :=
  if ch = '0' then .ok (p.readLiteral 0)
  else if ch = '1' then .ok (p.readLiteral 1)
  else if ch = '_' then p.readSeparator index
  else if ch.isAlpha then p.readLetter index ch
  else .error (.invalidCharacter ch index)

/-- The characters of a text from position `index` on, up to the first that
is refused. -/
def readAll (p : Progress) (index : Nat) : List Char → Except TextError Progress
  | [] => .ok p
  | ch :: rest =>
    match p.read index ch with
    | .ok p' => p'.readAll (index + 1) rest
    | .error e => .error e

theorem readAll_append (p : Progress) (index : Nat) (s t : List Char) :
    p.readAll index (s ++ t) =
      match p.readAll index s with
      | .ok p' => p'.readAll (index + s.length) t
      | .error e => .error e := by
  induction s generalizing p index with
  | nil => simp [readAll]
  | cons ch s ih =>
    simp only [List.cons_append, readAll]
    cases p.read index ch with
    | error e => rfl
    | ok p' => simp [ih, Nat.add_assoc, Nat.add_comm 1]

end Progress

/-- The spec that a text stands for. -/
def ofText (text : String) : Except TextError Spec :=
  match Progress.start.readAll 0 text.toList with
  | .error e => .error e
  | .ok p =>
    match p.close with
    | [] => .error .empty
    | parts => .ok ⟨parts.reverse⟩

end Spec
end WordPattern
