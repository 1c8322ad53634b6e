/-
JSON values.

An object is the list of its members in the order of the text, and a key may
come up more than once; `lastWins` is the object in which it does not, and in
which the keys ascend. A string escape may name half of a surrogate pair whose
other half is missing, and then there is no string to read. A value that needs
that string, as itself or as one of its keys, is `undecodable`: it is
well-formed, and can be skipped, but nothing can be read from it.
-/
import WordPattern.Json.Number
import WordPattern.Text.Quoted

namespace WordPattern

/-- A value; the members of an object are kept as they come. -/
inductive Json where
  | null
  | bool (value : Bool)
  | number (value : Json.Number)
  | string (value : String)
  | array (items : List Json)
  | object (members : List (String × Json))
  | undecodable

namespace Json

/-- A natural number. -/
def ofNat (n : Nat) : Json := .number (.ofNat n)

/-- The values under `key`, in order. -/
def valuesOf (key : String) (members : List (String × Json)) : List Json :=
  (members.filter (·.1 == key)).map (·.2)

/-- Members without those whose key comes up again further on. -/
def lastOfEach : List (String × Json) → List (String × Json)
  | [] => []
  | (key, value) :: rest =>
    if rest.any (·.1 == key) then lastOfEach rest else (key, value) :: lastOfEach rest

/-- Members by ascending key. -/
def byKey (members : List (String × Json)) : List (String × Json) :=
  members.mergeSort fun a b => decide (a.1 ≤ b.1)

mutual

/-- The value in which, in every object, the last of several members with
one key stands for all of them, and the keys ascend. -/
def lastWins : Json → Json
  | .array items => .array (lastWinsItems items)
  | .object members => .object (byKey (lastOfEach (lastWinsMembers members)))
  | other => other

/-- The items one by one. -/
def lastWinsItems : List Json → List Json
  | [] => []
  | item :: rest => lastWins item :: lastWinsItems rest

/-- The values one by one, under their keys. -/
def lastWinsMembers : List (String × Json) → List (String × Json)
  | [] => []
  | (key, value) :: rest => (key, lastWins value) :: lastWinsMembers rest

end

/-- A value as messages name it. -/
def describe : Json → String
  | .null => "null"
  | .bool true => "boolean `true`"
  | .bool false => "boolean `false`"
  | .number n => n.describe
  | .string s => s!"string {Text.quoteString s}"
  | .array _ => "sequence"
  | .object _ => "map"
  | .undecodable => "undecodable text"

/-- A key is left once, if it was there at all. -/
theorem valuesOf_lastOfEach (key : String) (members : List (String × Json)) :
    valuesOf key (lastOfEach members) = (valuesOf key members).getLast?.toList := by
  induction members with
  | nil => rfl
  | cons m rest ih =>
    obtain ⟨k, v⟩ := m
    have hlast : ∀ (x : Json) (l : List Json), l ≠ [] → (x :: l).getLast? = l.getLast? := by
      intro x l hl
      cases l with
      | nil => exact absurd rfl hl
      | cons y l => rfl
    by_cases hk : k = key
    · subst hk
      by_cases hr : rest.any (fun m => m.1 == k) = true
      · have hne : valuesOf k rest ≠ [] := by
          obtain ⟨m, hm, he⟩ := List.any_eq_true.mp hr
          simp only [valuesOf, ne_eq, List.map_eq_nil_iff, List.filter_eq_nil_iff]
          exact fun h => h m hm he
        simp only [lastOfEach, hr, if_true, ih]
        simp only [valuesOf, List.filter_cons, beq_self_eq_true, if_true, List.map_cons] at hne ⊢
        rw [hlast _ _ hne]
      · have hnil : valuesOf k rest = [] := by
          simp only [valuesOf, List.map_eq_nil_iff, List.filter_eq_nil_iff]
          intro m hm he
          exact hr (List.any_eq_true.mpr ⟨m, hm, he⟩)
        simp only [lastOfEach, hr]
        simp only [valuesOf, Bool.false_eq_true, if_false, List.filter_cons, beq_self_eq_true, if_true,
          List.map_cons] at ih hnil ⊢
        rw [ih, hnil]
        rfl
    · have hk' : (k == key) = false := by simpa using hk
      simp only [lastOfEach]
      split
      · rw [ih]; simp [valuesOf, hk']
      · simp only [valuesOf, List.filter_cons, hk', Bool.false_eq_true, if_false] at ih ⊢
        exact ih

end Json
end WordPattern
