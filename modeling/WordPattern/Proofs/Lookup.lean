/-
Looking captured values up by name: by the position of the first field so
called, or in the map of all named fields. Entering a field changes what its own
name gives, if that gave nothing yet, and no other name, `lookup_enter`; so the
two ways agree, `decode_looked_up`.
-/
import Mathlib.Data.List.Dedup
import Mathlib.Data.List.ReduceOption
import Mathlib.Data.String.Basic
import WordPattern.Group.Decoded

namespace WordPattern
namespace Decoded

/-! ## Entries by ascending name -/

/-- Each name stands once, before all greater ones. -/
def Ascending (entries : List (String × Word)) : Prop := (entries.map Prod.fst).Pairwise (· < ·)

variable {entries : List (String × Word)} {name key : String} {value : Word}

theorem mem_keys_insertNew :
    key ∈ (insertNew name value entries).map Prod.fst ↔ key = name ∨ key ∈ entries.map Prod.fst := by
  induction entries with
  | nil => simp [insertNew]
  | cons entry rest ih =>
    obtain ⟨first, old⟩ := entry
    rw [insertNew]
    split
    · simp
    split
    · next heq => simp [heq]
    · rw [List.map_cons, List.mem_cons, ih, List.map_cons, List.mem_cons, or_left_comm]

theorem Ascending.nil : Ascending [] := List.Pairwise.nil

theorem Ascending.insertNew (h : Ascending entries) : Ascending (insertNew name value entries) := by
  induction entries with
  | nil => exact List.pairwise_singleton _ _
  | cons entry rest ih =>
    obtain ⟨first, old⟩ := entry
    have hcons := List.pairwise_cons.mp h
    rw [Decoded.insertNew]
    split
    · next hlt =>
      refine List.pairwise_cons.mpr ⟨List.forall_mem_cons.mpr ⟨hlt, fun key hkey => ?_⟩, h⟩
      exact String.lt_trans hlt (hcons.1 key hkey)
    split
    · exact h
    · next hnot hne =>
      have hlt : first < name := lt_of_le_of_ne (not_lt.mp hnot) (Ne.symm hne)
      refine List.pairwise_cons.mpr ⟨fun key hkey => ?_, ih hcons.2⟩
      rcases mem_keys_insertNew.mp hkey with rfl | hkey
      · exact hlt
      · exact hcons.1 key hkey

theorem lookup_eq_none_iff_not_mem : entries.lookup key = none ↔ key ∉ entries.map Prod.fst := by
  rw [← Option.not_isSome_iff_eq_none, List.lookup_isSome_iff, List.mem_map]
  exact not_congr (exists_congr fun entry => and_congr_right fun _ => beq_iff_eq.trans eq_comm)

/-- A name that is there keeps its value, and a new one gets the value given. -/
theorem lookup_insertNew (h : Ascending entries) :
    (insertNew name value entries).lookup key =
      (entries.lookup key).or (if name = key then some value else none) := by
  induction entries with
  | nil =>
    rw [insertNew, List.lookup_cons, List.lookup_nil, Option.none_or]
    by_cases hkey : name = key
    · rw [if_pos hkey, hkey, BEq.rfl]
    · rw [if_neg hkey, beq_false_of_ne (Ne.symm hkey)]
  | cons entry rest ih =>
    obtain ⟨first, old⟩ := entry
    have hcons := List.pairwise_cons.mp h
    rw [insertNew]
    split
    · next hlt =>
      -- The new name is less than all that are there.
      by_cases hkey : name = key
      · subst hkey
        have hnew : ((first, old) :: rest).lookup name = none := by
          refine lookup_eq_none_iff_not_mem.mpr fun hmem => ?_
          rcases List.mem_cons.mp hmem with rfl | hmem
          · exact String.lt_irrefl _ hlt
          · exact String.lt_irrefl _ (String.lt_trans hlt (hcons.1 name hmem))
        rw [hnew, List.lookup_cons_self, if_pos rfl, Option.none_or]
      · rw [List.lookup_cons, beq_false_of_ne (Ne.symm hkey), if_neg hkey, Option.or_none]
    split
    · next heq =>
      by_cases hkey : name = key
      · rw [← hkey, heq, List.lookup_cons_self, Option.some_or]
      · rw [if_neg hkey, Option.or_none]
    · rw [List.lookup_cons, List.lookup_cons]
      split
      · rw [Option.some_or]
      · exact ih hcons.2

/-! ## Field by field -/

variable {fields : List (Capture × Word)} {field : Capture × Word}

/-- The value of the first of the fields that is called `name`. -/
def firstValue? (name : String) : List (Capture × Word) → Option Word
  | [] => none
  | field :: rest => if field.1.name = some name then some field.2 else firstValue? name rest

theorem Ascending.enter (h : Ascending entries) : Ascending (enter entries field) := by
  rw [Decoded.enter]
  split
  · exact h.insertNew
  · exact h

/-- **One field more**: what it is called is found, if it was not before. -/
theorem lookup_enter (h : Ascending entries) :
    (enter entries field).lookup key =
      (entries.lookup key).or (if field.1.name = some key then some field.2 else none) := by
  rw [enter]
  split
  · next name hname => simp only [lookup_insertNew h, hname, Option.some.injEq]
  · next hname => simp only [hname, reduceCtorEq, ↓reduceIte, Option.or_none]

theorem ascending_foldl_enter (h : Ascending entries) (fields : List (Capture × Word)) :
    Ascending (fields.foldl enter entries) := by
  induction fields generalizing entries with
  | nil => exact h
  | cons field rest ih => exact ih h.enter

/-- **All fields**: each name gives the value of the first that has it. -/
theorem lookup_foldl_enter (h : Ascending entries) (fields : List (Capture × Word)) :
    (fields.foldl enter entries).lookup key = (entries.lookup key).or (firstValue? key fields) := by
  induction fields generalizing entries with
  | nil => rw [List.foldl_nil, firstValue?, Option.or_none]
  | cons field rest ih =>
    rw [List.foldl_cons, ih h.enter, lookup_enter h, Option.or_assoc, firstValue?]
    split
    · rw [Option.some_or]
    · rw [Option.none_or]

theorem firstValue?_zip (captures : List Capture) (values : List Word) (h : values.length = captures.length) :
    firstValue? name (captures.zip values) =
      (captures.findIdx? fun c => c.name == some name).bind fun i => values[i]? := by
  induction captures generalizing values with
  | nil => rfl
  | cons c captures ih =>
    cases values with
    | nil => cases h
    | cons value values =>
      rw [List.zip_cons_cons, firstValue?, List.findIdx?_cons, ih values (Nat.succ.inj h)]
      by_cases hname : c.name = some name
      · rw [if_pos hname, if_pos (beq_of_eq hname)]
        rfl
      · rw [if_neg hname, if_neg fun h => hname (eq_of_beq h), Option.bind_map]
        rfl

/-! ## The two ways -/

/-- The field at position `i` is the first one called `name`. -/
structure FirstCalled (names : List (Option String)) (name : String) (i : Nat) : Prop where
  here : names[i]? = some (some name)
  earlier : ∀ j < i, names[j]? ≠ some (some name)

variable {d : Decoded} {i : Nat}

theorem position?_eq_some_iff : d.position? name = some i ↔ FirstCalled d.pattern.names name i := by
  rw [position?, List.findIdx?_eq_some_iff_getElem]
  constructor
  · intro ⟨hi, hname, hearlier⟩
    refine ⟨?_, fun j hj => ?_⟩
    · rw [Pattern.getElem?_names hi, eq_of_beq hname]
    · rw [Pattern.getElem?_names (Nat.lt_trans hj hi)]
      exact fun h => hearlier j hj (beq_of_eq (Option.some.inj h))
  · intro h
    have hi : i < d.pattern.captures.length := by
      rw [← Pattern.length_names]
      exact (List.getElem?_eq_some_iff.mp h.here).1
    refine ⟨hi, ?_, fun j hj hname => h.earlier j hj ?_⟩
    · have hhere := h.here
      rw [Pattern.getElem?_names hi] at hhere
      exact beq_of_eq (Option.some.inj hhere)
    · rw [Pattern.getElem?_names (Nat.lt_trans hj hi), eq_of_beq hname]

theorem position?_eq_none_iff : d.position? name = none ↔ some name ∉ d.pattern.names := by
  simp [position?, Pattern.names]

theorem lt_length_of_position? (h : d.values.length = d.pattern.captures.length)
    (hi : d.position? name = some i) : i < d.values.length := by
  rw [h]
  exact (List.findIdx?_eq_some_iff_getElem.mp hi).1

theorem get_eq_some_iff : d.get name = some value ↔
    ∃ i, FirstCalled d.pattern.names name i ∧ d.values[i]? = some value := by
  simp only [get, Option.bind_eq_some_iff, position?_eq_some_iff]

theorem get_eq_none_iff (h : d.values.length = d.pattern.captures.length) :
    d.get name = none ↔ some name ∉ d.pattern.names := by
  rw [← position?_eq_none_iff, get]
  cases hi : d.position? name with
  | none => exact iff_of_true rfl rfl
  | some i =>
    rw [Option.bind_some, List.getElem?_eq_getElem (lt_length_of_position? h hi)]
    exact iff_of_false (Option.some_ne_none _) (Option.some_ne_none _)

theorem ascending_toMap (d : Decoded) : Ascending d.toMap := ascending_foldl_enter .nil _

theorem get_eq_lookup_toMap (h : d.values.length = d.pattern.captures.length) (name : String) :
    d.get name = d.toMap.lookup name := by
  rw [toMap, lookup_foldl_enter .nil, List.lookup_nil, Option.none_or, firstValue?_zip _ _ h]
  rfl

theorem mem_keys_toMap_iff (h : d.values.length = d.pattern.captures.length) :
    name ∈ d.toMap.map Prod.fst ↔ some name ∈ d.pattern.names := by
  rw [← not_iff_not, ← lookup_eq_none_iff_not_mem, ← get_eq_lookup_toMap h, get_eq_none_iff h]

/-! ## How many entries there are -/

theorem nodup_keys_toMap (d : Decoded) : (d.toMap.map Prod.fst).Nodup :=
  d.ascending_toMap.imp fun hlt => ne_of_lt hlt

theorem length_toMap (h : d.values.length = d.pattern.captures.length) :
    d.toMap.length = d.pattern.names.reduceOption.dedup.length := by
  have hperm : (d.toMap.map Prod.fst).Perm d.pattern.names.reduceOption.dedup := by
    refine (List.perm_ext_iff_of_nodup d.nodup_keys_toMap (List.nodup_dedup _)).mpr fun name => ?_
    rw [mem_keys_toMap_iff h, List.mem_dedup, List.reduceOption_mem_iff]
  rw [← hperm.length_eq, List.length_map]

theorem map_some_reduceOption {names : List (Option String)} (h : ∀ name ∈ names, name.isSome = true) :
    names.reduceOption.map some = names := by
  induction names with
  | nil => rfl
  | cons name names ih =>
    rw [List.forall_mem_cons] at h
    obtain ⟨name, rfl⟩ := Option.isSome_iff_exists.mp h.1
    rw [List.reduceOption_cons_of_some, List.map_cons, ih h.2]

theorem nodup_reduceOption_iff {names : List (Option String)} (h : ∀ name ∈ names, name.isSome = true) :
    names.reduceOption.Nodup ↔ names.Nodup := by
  rw [← List.nodup_map_iff (f := some) fun _ _ => Option.some.inj, map_some_reduceOption h]

theorem length_toMap_eq_iff (h : d.values.length = d.pattern.captures.length) :
    d.toMap.length = d.pattern.captures.length ↔
      (∀ name ∈ d.pattern.names, name.isSome = true) ∧ d.pattern.names.Nodup := by
  have hdedup := (List.dedup_sublist d.pattern.names.reduceOption).length_le
  have hreduce := List.reduceOption_length_le d.pattern.names
  rw [length_toMap h, ← Pattern.length_names]
  constructor
  · intro heq
    have hnamed := List.reduceOption_length_eq_iff.mp (Nat.le_antisymm hreduce (heq ▸ hdedup))
    refine ⟨hnamed, (nodup_reduceOption_iff hnamed).mp (List.dedup_eq_self.mp ?_)⟩
    exact (List.dedup_sublist _).eq_of_length (Nat.le_antisymm hdedup (heq ▸ hreduce))
  · intro ⟨hnamed, hnodup⟩
    rw [List.dedup_eq_self.mpr ((nodup_reduceOption_iff hnamed).mpr hnodup),
      List.reduceOption_length_eq_iff.mpr hnamed]

/-! ## Decoded words -/

/-- **What a group decodes can be looked up by name, in two ways that agree.**
The position that a name is looked up at has a value, and what is found there is
what the map holds: the value of the first field so called, and nothing if no
field is. The map has the names of the named fields, each once and ascending. -/
theorem decode_looked_up (g : Group) (w : Word) :
    (g.decode w).isSome = (g.find w).isSome ∧
    ∀ d, g.decode w = some d →
      g.find w = some d.pattern ∧ d.pattern.capture w = some d.values ∧
      d.values.length = d.pattern.names.length ∧
      (∀ name : String,
        (∀ i, d.position? name = some i → i < d.values.length) ∧
        d.get name = d.toMap.lookup name ∧
        (∀ value, d.get name = some value ↔
          ∃ i, FirstCalled d.pattern.names name i ∧ d.values[i]? = some value) ∧
        (d.get name = none ↔ some name ∉ d.pattern.names) ∧
        (name ∈ d.toMap.map Prod.fst ↔ some name ∈ d.pattern.names)) ∧
      (d.toMap.map Prod.fst).Pairwise (· < ·) ∧
      (d.toMap.length = d.pattern.captures.length ↔
        (∀ name ∈ d.pattern.names, name.isSome = true) ∧ d.pattern.names.Nodup) := by
  refine ⟨Option.isSome_map, fun d hd => ?_⟩
  obtain ⟨hfind, hcapture⟩ := Group.decode_eq_some_iff.mp hd
  have hlength : d.values.length = d.pattern.captures.length := by
    rw [← (Pattern.capture_eq_some_iff.mp hcapture).2, Pattern.length_values]
  refine ⟨hfind, hcapture, by rw [hlength, Pattern.length_names], fun name => ?_, d.ascending_toMap,
    length_toMap_eq_iff hlength⟩
  exact ⟨fun i => lt_length_of_position? hlength, get_eq_lookup_toMap hlength name, fun value => get_eq_some_iff,
    get_eq_none_iff hlength, mem_keys_toMap_iff hlength⟩

/-- A repeated name, an empty one and none. -/
example :
    let p : Pattern :=
      ⟨none, 8, 0, 0, 0, [⟨some "r", 7, 2⟩, ⟨none, 5, 2⟩, ⟨some "", 3, 2⟩, ⟨some "r", 1, 2⟩]⟩
    let d : Decoded := ⟨p, p.values 0b10110001⟩
    d.values = [2, 3, 0, 1] ∧ d.toMap = [("", 0), ("r", 2)] ∧ d.get "r" = some 2 := by decide

end Decoded
end WordPattern
