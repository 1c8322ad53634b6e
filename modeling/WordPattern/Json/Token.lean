/-
The tokens of a JSON text.

Strings are read with their escapes. An escape names a UTF-16 unit; two
escapes next to each other that name the halves of a surrogate pair stand
for one character, and a half without the other makes the string
undecodable. Numbers keep their parts. White space between tokens is the
space, the tab, the line feed and the carriage return.
-/
import WordPattern.Json

namespace WordPattern.Json

/-- The smallest piece of a text that says something. -/
inductive Token where
  | openArray
  | closeArray
  | openObject
  | closeObject
  | comma
  | colon
  | null
  | bool (value : Bool)
  | number (value : Number)
  /-- None for an undecodable string. -/
  | string (value : Option String)

/-! ## Strings -/

/-- One step of a string: a character, or an escape that names a unit. -/
inductive Piece where
  | char (ch : Char)
  | unit (value : Nat)

/-- The value of a hexadecimal digit of either case. -/
def hexValue? (ch : Char) : Option Nat :=
  if '0' ≤ ch ∧ ch ≤ '9' then some (ch.toNat - '0'.toNat)
  else if 'a' ≤ ch ∧ ch ≤ 'f' then some (ch.toNat - 'a'.toNat + 10)
  else if 'A' ≤ ch ∧ ch ≤ 'F' then some (ch.toNat - 'A'.toNat + 10)
  else none

/-- The unit named by four hexadecimal digits. -/
def unit? (a b c d : Char) : Option Nat := do
  let a ← hexValue? a
  let b ← hexValue? b
  let c ← hexValue? c
  let d ← hexValue? d
  return ((a * 16 + b) * 16 + c) * 16 + d

/-- The character that one letter after a backslash stands for. -/
def shortEscape? (ch : Char) : Option Char :=
  if ch = '"' ∨ ch = '\\' ∨ ch = '/' then some ch
  else if ch = 'b' then some '\x08'
  else if ch = 'f' then some '\x0c'
  else if ch = 'n' then some '\n'
  else if ch = 'r' then some '\r'
  else if ch = 't' then some '\t'
  else none

/-- What was read, changed by `f`, and the same text after it. -/
def reading {α β : Type} (f : α → β) (found : α × List Char) : β × List Char := (f found.1, found.2)

/-- The rest of a string up to its closing quote, and the text after it. -/
def pieces? : List Char → Option (List Piece × List Char)
  | [] => none
  | '"' :: rest => some ([], rest)
  | '\\' :: 'u' :: a :: b :: c :: d :: rest =>
    match unit? a b c d, pieces? rest with
    | some unit, some (pieces, after) => some (.unit unit :: pieces, after)
    | _, _ => none
  | '\\' :: letter :: rest =>
    match shortEscape? letter, pieces? rest with
    | some ch, some (pieces, after) => some (.char ch :: pieces, after)
    | _, _ => none
  | ch :: rest =>
    if ch = '\\' ∨ ch.toNat < 0x20 then none
    else (pieces? rest).map (reading (.char ch :: ·))

/-- The first half of a pair. -/
def isHighSurrogate (unit : Nat) : Bool := 0xD800 ≤ unit && unit < 0xDC00

/-- The second half of a pair. -/
def isLowSurrogate (unit : Nat) : Bool := 0xDC00 ≤ unit && unit < 0xE000

/-- The characters of a string; none if half of a pair stands alone. -/
def characters? : List Piece → Option (List Char)
  | [] => some []
  | .char ch :: rest => (characters? rest).map (ch :: ·)
  | .unit high :: .unit low :: rest =>
    if isHighSurrogate high && isLowSurrogate low then
      (characters? rest).map (Char.ofNat (0x10000 + (high - 0xD800) * 0x400 + (low - 0xDC00)) :: ·)
    else if isHighSurrogate high || isLowSurrogate high then none
    else (characters? (.unit low :: rest)).map (Char.ofNat high :: ·)
  | .unit unit :: rest =>
    if isHighSurrogate unit || isLowSurrogate unit then none
    else (characters? rest).map (Char.ofNat unit :: ·)

/-! ## Numbers -/

/-- The digits at the front, and the text after them. -/
def digits (text : List Char) : List Char × List Char :=
  (text.takeWhile Char.isDigit, text.dropWhile Char.isDigit)

/-- The digits at the front, of which there must be one. -/
def someDigits? (text : List Char) : Option (List Char × List Char) :=
  match digits text with
  | ([], _) => none
  | found => some found

/-- The digits before a point: `0` alone, or digits of which the first is
another. -/
def whole? (text : List Char) : Option (List Char × List Char) :=
  match digits text with
  | ([], _) => none
  | ('0' :: _ :: _, _) => none
  | found => some found

/-- A point and the digits after it, if there is a point. -/
def fraction? : List Char → Option (Option (List Char) × List Char)
  | '.' :: text => (someDigits? text).map (reading some)
  | text => some (none, text)

/-- Digits, of which there must be one, after a sign if there is one. -/
def signed? : List Char → Option (Int × List Char)
  | '-' :: text => (someDigits? text).map (reading fun found => -(Number.digitsValue found : Int))
  | '+' :: text => (someDigits? text).map (reading fun found => (Number.digitsValue found : Int))
  | text => (someDigits? text).map (reading fun found => (Number.digitsValue found : Int))

/-- An exponent, if there is one. -/
def exponent? : List Char → Option (Option Int × List Char)
  | 'e' :: text | 'E' :: text => (signed? text).map (reading some)
  | text => some (none, text)

/-- A number without its sign. -/
def magnitude? (negative : Bool) (text : List Char) : Option (Number × List Char) := do
  let (whole, text) ← whole? text
  let (fraction, text) ← fraction? text
  let (exponent, text) ← exponent? text
  return (⟨negative, whole, fraction, exponent⟩, text)

/-! ## Tokens -/

/-- The token that starts with `ch`, and the text after it. -/
def token? (ch : Char) (rest : List Char) : Option (Token × List Char) :=
  match ch, rest with
  | '[', _ => some (.openArray, rest)
  | ']', _ => some (.closeArray, rest)
  | '\x7b', _ => some (.openObject, rest)
  | '\x7d', _ => some (.closeObject, rest)
  | ',', _ => some (.comma, rest)
  | ':', _ => some (.colon, rest)
  | 'n', 'u' :: 'l' :: 'l' :: after => some (.null, after)
  | 't', 'r' :: 'u' :: 'e' :: after => some (.bool true, after)
  | 'f', 'a' :: 'l' :: 's' :: 'e' :: after => some (.bool false, after)
  | '"', _ => (pieces? rest).map (reading fun pieces => .string ((characters? pieces).map String.ofList))
  | '-', _ => (magnitude? true rest).map (reading .number)
  | _, _ => (magnitude? false (ch :: rest)).map (reading .number)

/-- What may stand between tokens. -/
def isBlank (ch : Char) : Bool := ch == ' ' || ch == '\t' || ch == '\n' || ch == '\r'

/-! Every token is taken off the front of the text, so the text gets shorter. -/

theorem length_reading {α β : Type} {f : α → β} {x : Option (α × List Char)} {after : List Char} {b : β}
    {n : Nat} (hx : ∀ a r, x = some (a, r) → r.length ≤ n) (h : x.map (reading f) = some (b, after)) :
    after.length ≤ n := by
  obtain ⟨⟨a, r⟩, ha, he⟩ := Option.map_eq_some_iff.mp h
  simp only [reading, Prod.mk.injEq] at he
  rw [← he.2]; exact hx a r ha

theorem length_pieces? {text after : List Char} {pieces : List Piece}
    (h : pieces? text = some (pieces, after)) : after.length ≤ text.length := by
  fun_induction pieces? text generalizing pieces after with
  | case1 => simp at h
  | case2 rest => simp at h; simp [h.2]
  | case3 a b c d rest unit ps r hps _ ih =>
    simp only [Option.some.injEq, Prod.mk.injEq] at h
    have := ih hps
    simp only [List.length_cons, ← h.2]; omega
  | case4 => simp at h
  | case5 letter rest _ ch ps r hps _ ih =>
    simp only [Option.some.injEq, Prod.mk.injEq] at h
    have := ih hps
    simp only [List.length_cons, ← h.2]; omega
  | case6 => simp at h
  | case7 => simp at h
  | case8 ch rest _ _ _ _ ih =>
    exact length_reading (fun _ _ hps => Nat.le_succ_of_le (ih hps)) h

theorem length_digits (text : List Char) : (digits text).1.length + (digits text).2.length = text.length := by
  rw [← List.length_append, digits, List.takeWhile_append_dropWhile]

theorem length_someDigits? {text after found : List Char} (h : someDigits? text = some (found, after)) :
    after.length ≤ text.length := by
  have hd := length_digits text
  simp only [someDigits?] at h
  split at h
  · simp at h
  · simp only [Option.some.injEq] at h
    rw [h] at hd; simp only at hd; omega

theorem length_whole? {text after found : List Char} (h : whole? text = some (found, after)) :
    after.length < text.length := by
  have hd := length_digits text
  simp only [whole?] at h
  split at h
  · simp at h
  · simp at h
  · next hne _ =>
    simp only [Option.some.injEq] at h
    rw [h] at hd
    cases found with
    | nil => exact absurd h (hne after)
    | cons ch rest => simp only [List.length_cons] at hd; omega

theorem length_fraction? {text after : List Char} {found : Option (List Char)}
    (h : fraction? text = some (found, after)) : after.length ≤ text.length := by
  unfold fraction? at h
  split at h
  · exact length_reading (fun _ _ hd => Nat.le_succ_of_le (length_someDigits? hd)) h
  · simp only [Option.some.injEq, Prod.mk.injEq] at h
    exact Nat.le_of_eq (congrArg List.length h.2).symm

theorem length_signed? {text after : List Char} {found : Int}
    (h : signed? text = some (found, after)) : after.length ≤ text.length := by
  unfold signed? at h
  split at h
  · exact length_reading (fun _ _ hd => Nat.le_succ_of_le (length_someDigits? hd)) h
  · exact length_reading (fun _ _ hd => Nat.le_succ_of_le (length_someDigits? hd)) h
  · exact length_reading (fun _ _ hd => length_someDigits? hd) h

theorem length_exponent? {text after : List Char} {found : Option Int}
    (h : exponent? text = some (found, after)) : after.length ≤ text.length := by
  unfold exponent? at h
  split at h
  · exact length_reading (fun _ _ hd => Nat.le_succ_of_le (length_signed? hd)) h
  · exact length_reading (fun _ _ hd => Nat.le_succ_of_le (length_signed? hd)) h
  · simp only [Option.some.injEq, Prod.mk.injEq] at h
    exact Nat.le_of_eq (congrArg List.length h.2).symm

theorem length_magnitude? {negative : Bool} {text after : List Char} {n : Number}
    (h : magnitude? negative text = some (n, after)) : after.length < text.length := by
  simp only [magnitude?, Option.bind_eq_bind, Option.bind_eq_some_iff, Option.pure_def,
    Option.some.injEq, Prod.mk.injEq] at h
  obtain ⟨⟨_, t₁⟩, h₁, ⟨_, t₂⟩, h₂, ⟨_, t₃⟩, h₃, -, rfl⟩ := h
  exact Nat.lt_of_le_of_lt (length_exponent? h₃)
    (Nat.lt_of_le_of_lt (length_fraction? h₂) (length_whole? h₁))

theorem length_token? {ch : Char} {rest after : List Char} {t : Token}
    (h : token? ch rest = some (t, after)) : after.length ≤ rest.length := by
  unfold token? at h
  split at h
  case h_10 => exact length_reading (fun _ _ hp => length_pieces? hp) h
  case h_11 => exact length_reading (fun _ _ hm => Nat.le_of_lt (length_magnitude? hm)) h
  case h_12 => exact length_reading (fun _ _ hm => Nat.le_of_lt_succ (by simpa using length_magnitude? hm)) h
  all_goals
    simp only [Option.some.injEq, Prod.mk.injEq] at h
    obtain ⟨-, rfl⟩ := h
    first | exact Nat.le_refl _ | (simp only [List.length_cons]; omega)

/-- The tokens of a text; none if some of it is no token. -/
def tokens? : List Char → Option (List Token)
  | [] => some []
  | ch :: rest =>
    if isBlank ch then tokens? rest
    else
      match _ : token? ch rest with
      | none => none
      | some (t, after) => (tokens? after).map (t :: ·)
termination_by text => text.length
decreasing_by
  · simp
  · exact Nat.lt_succ_of_le (length_token? (by assumption))

end WordPattern.Json
