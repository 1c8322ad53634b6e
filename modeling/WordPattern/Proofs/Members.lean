/-
Which JSON values denote a definition. An object is read member by member, and a
field comes to a value when exactly one member has its key,
`foldlM_readField_eq_ok_iff`. So what denotes a definition is told by what it
holds, `DenotedBy`, whatever the order of members, `ReadsByKey`.
-/
import WordPattern.Definition.Json
import WordPattern.Proofs.First

namespace WordPattern

variable {ε α β : Type}

theorem bind_eq_ok_iff {x : Except ε α} {f : α → Except ε β} {b : β} :
    x >>= f = .ok b ↔ ∃ a, x = .ok a ∧ f a = .ok b := by
  cases x <;> simp [bind, Except.bind]

theorem foldlM_cons_eq_ok_iff {f : β → α → Except ε β} {a : α} {as : List α} {b c : β} :
    (a :: as).foldlM f b = .ok c ↔ ∃ b', f b a = .ok b' ∧ as.foldlM f b' = .ok c := by
  rw [List.foldlM_cons, bind_eq_ok_iff]

/-- What leaves the state as it is can be left out. -/
theorem foldlM_append_cons_of_skip {f : β → α → Except ε β} {a : α} (h : ∀ b, f b a = .ok b)
    (above below : List α) (b : β) : (above ++ a :: below).foldlM f b = (above ++ below).foldlM f b := by
  simp only [List.foldlM_append, List.foldlM_cons, h]
  rfl

namespace Json

/-- The keys of members, in their order. -/
def keys (members : List (String × Json)) : List String := members.map Prod.fst

/-- Exactly one of the members has this key, and it has this value. -/
structure HoldsOnce (key : String) (value : Json) (members : List (String × Json)) : Prop where
  here : (key, value) ∈ members
  once : (keys members).count key = 1

/-- A name as it is written: null for none, and any string, be it empty, for
itself. -/
inductive IsName : Json → Option String → Prop
  | null : IsName .null none
  | string (s : String) : IsName (.string s) (some s)

variable {key other : String} {value value' : Json} {members members' rest : List (String × Json)}

theorem keys_cons (member : String × Json) (rest : List (String × Json)) :
    keys (member :: rest) = member.1 :: keys rest := rfl

theorem keys_perm (h : members.Perm members') : (keys members).Perm (keys members') := h.map _

theorem HoldsOnce.of_perm (h : HoldsOnce key value members) (hperm : members.Perm members') :
    HoldsOnce key value members' :=
  ⟨hperm.mem_iff.mp h.here, by rw [← (keys_perm hperm).count_eq, h.once]⟩

theorem not_mem_keys_of_mem (h : key ∉ keys members) : (key, value) ∉ members :=
  fun hmem => h (List.mem_map_of_mem hmem)

/-- A member with the key is the only one if none comes after it. -/
theorem holdsOnce_cons_self : HoldsOnce key value ((key, value') :: rest) ↔ value = value' ∧ key ∉ keys rest := by
  have hcount : (keys ((key, value') :: rest)).count key = 1 ↔ key ∉ keys rest := by
    rw [keys_cons, List.count_cons_self, Nat.succ_inj, List.count_eq_zero]
  constructor
  · intro h
    have hrest := hcount.mp h.once
    rcases List.mem_cons.mp h.here with heq | hmem
    · exact ⟨(Prod.mk.inj heq).2, hrest⟩
    · exact absurd hmem (not_mem_keys_of_mem hrest)
  · rintro ⟨rfl, hrest⟩
    exact ⟨List.mem_cons_self, hcount.mpr hrest⟩

theorem holdsOnce_cons_of_ne (h : other ≠ key) :
    HoldsOnce key value ((other, value') :: rest) ↔ HoldsOnce key value rest := by
  have hcount : (keys ((other, value') :: rest)).count key = (keys rest).count key := by
    rw [keys_cons, List.count_cons_of_ne h]
  have hmem : (key, value) ∈ (other, value') :: rest ↔ (key, value) ∈ rest := by
    rw [List.mem_cons, or_iff_right fun heq => h (Prod.mk.inj heq).1.symm]
  constructor
  · exact fun hold => ⟨hmem.mp hold.here, hcount ▸ hold.once⟩
  · exact fun hold => ⟨hmem.mpr hold.here, hcount ▸ hold.once⟩

/-! ## Single values -/

theorem toText_eq_ok_iff {s : String} : value.toText = .ok s ↔ value = .string s := by
  cases value <;> simp [toText]

theorem toName_eq_ok_iff {name : Option String} : value.toName = .ok name ↔ value.IsName name := by
  constructor
  · intro h
    cases value with
    | null =>
      cases h
      exact .null
    | string s =>
      cases h
      exact .string s
    | bool | number | array | object | undecodable => cases h
  · intro h
    cases h <;> rfl

/-! ## One field -/

/-- What a field comes to that reads the members with its key. -/
inductive FieldRead {α : Type} (key : String) (read : Json → Except Misfit α) (members : List (String × Json)) :
    Option α → Prop
  | absent : key ∉ keys members → FieldRead key read members none
  | present {value : Json} {a : α} : HoldsOnce key value members → read value = .ok a →
      FieldRead key read members (some a)

variable {α : Type} {read : Json → Except Misfit α} {slot : Option α}

theorem readField_of_ne (h : other ≠ key) (slot : Option α) :
    readField key read slot (other, value) = .ok slot := if_neg h

theorem readField_self_eq_ok_iff :
    readField key read none (key, value) = .ok slot ↔ ∃ a, read value = .ok a ∧ slot = some a := by
  rw [readField, if_pos rfl]
  cases read value with
  | error e => simp [Except.map]
  | ok a => simp [Except.map, eq_comm]

/-- A field that has been read stands no second member with its key. -/
theorem foldlM_readField_some_eq_ok_iff {a : α} :
    members.foldlM (readField key read) (some a) = .ok slot ↔ key ∉ keys members ∧ slot = some a := by
  induction members with
  | nil => simp [keys, pure, Except.pure, eq_comm]
  | cons member rest ih =>
    obtain ⟨other, value⟩ := member
    rw [foldlM_cons_eq_ok_iff, keys_cons, List.mem_cons]
    by_cases h : other = key
    · simp [readField, h]
    · simp [readField_of_ne h, ih, Ne.symm h]

/-- **The run of a field**: it is absent when no member has its key, and read
from the member that has it when that is the only one. -/
theorem foldlM_readField_eq_ok_iff :
    members.foldlM (readField key read) none = .ok slot ↔ FieldRead key read members slot := by
  induction members with
  | nil =>
    constructor
    · intro h
      cases h
      exact .absent List.not_mem_nil
    · intro h
      cases h with
      | absent => rfl
      | present hold => exact absurd hold.here List.not_mem_nil
  | cons member rest ih =>
    obtain ⟨other, value⟩ := member
    rw [foldlM_cons_eq_ok_iff]
    by_cases h : other = key
    · subst h
      -- The field is read here, so no member of the rest may have the key.
      simp only [readField_self_eq_ok_iff]
      constructor
      · rintro ⟨-, ⟨a, ha, rfl⟩, hrest⟩
        obtain ⟨hnot, rfl⟩ := foldlM_readField_some_eq_ok_iff.mp hrest
        exact .present (holdsOnce_cons_self.mpr ⟨rfl, hnot⟩) ha
      · intro hread
        cases hread with
        | absent hnot => exact absurd List.mem_cons_self hnot
        | @present v a hold ha =>
          obtain ⟨rfl, hnot⟩ := holdsOnce_cons_self.mp hold
          exact ⟨_, ⟨a, ha, rfl⟩, foldlM_readField_some_eq_ok_iff.mpr ⟨hnot, rfl⟩⟩
    · simp only [readField_of_ne h, Except.ok.injEq, exists_eq_left', ih]
      constructor
      · intro hread
        cases hread with
        | absent hnot => exact .absent (List.not_mem_cons_of_ne_of_not_mem (Ne.symm h) hnot)
        | present hold ha => exact .present ((holdsOnce_cons_of_ne h).mpr hold) ha
      · intro hread
        cases hread with
        | absent hnot => exact .absent (List.not_mem_of_not_mem_cons hnot)
        | present hold ha => exact .present ((holdsOnce_cons_of_ne h).mp hold) ha

end Json

open Json (keys HoldsOnce FieldRead)

/-! ## The definition of a pattern -/

namespace PatternDef

/-- What denotes a definition: an object with its pattern under `pattern`, and
under `name` its name or, if it has none, also nothing; or an array of the two. -/
inductive DenotedBy (d : PatternDef) : Json → Prop
  | unnamed {members : List (String × Json)} : "name" ∉ keys members → d.name = none →
      HoldsOnce "pattern" (.string d.pattern) members → DenotedBy d (.object members)
  | named {members : List (String × Json)} {value : Json} : HoldsOnce "name" value members → value.IsName d.name →
      HoldsOnce "pattern" (.string d.pattern) members → DenotedBy d (.object members)
  | pair {value : Json} : value.IsName d.name → DenotedBy d (.array [value, .string d.pattern])

variable {d : PatternDef} {f f' : Fields} {value : Json} {members members' : List (String × Json)}

theorem Fields.read_eq_ok_iff {member : String × Json} :
    f.read member = .ok f' ↔
      Json.readField "name" Json.toName f.name member = .ok f'.name ∧
        Json.readField "pattern" Json.toText f.pattern member = .ok f'.pattern := by
  simp only [read, bind_eq_ok_iff]
  constructor
  · rintro ⟨name, hname, pattern, hpattern, heq⟩
    cases heq
    exact ⟨hname, hpattern⟩
  · intro ⟨hname, hpattern⟩
    exact ⟨_, hname, _, hpattern, rfl⟩

/-- The two fields run side by side. -/
theorem Fields.foldlM_read_eq_ok_iff :
    members.foldlM Fields.read f = .ok f' ↔
      members.foldlM (Json.readField "name" Json.toName) f.name = .ok f'.name ∧
        members.foldlM (Json.readField "pattern" Json.toText) f.pattern = .ok f'.pattern := by
  induction members generalizing f with
  | nil =>
    obtain ⟨name, pattern⟩ := f
    obtain ⟨name', pattern'⟩ := f'
    simp [pure, Except.pure]
  | cons member rest ih =>
    simp only [foldlM_cons_eq_ok_iff, ih, read_eq_ok_iff]
    constructor
    · rintro ⟨g, ⟨hname, hpattern⟩, hnames, hpatterns⟩
      exact ⟨⟨_, hname, hnames⟩, ⟨_, hpattern, hpatterns⟩⟩
    · rintro ⟨⟨name, hname, hnames⟩, ⟨pattern, hpattern, hpatterns⟩⟩
      exact ⟨⟨name, pattern⟩, ⟨hname, hpattern⟩, hnames, hpatterns⟩

theorem Fields.finish_eq_ok_iff : f.finish = .ok d ↔ f.name.getD none = d.name ∧ f.pattern = some d.pattern := by
  obtain ⟨name, pattern⟩ := d
  rw [finish]
  cases f.pattern <;> simp

theorem ofJson_object_eq_ok_iff :
    ofJson (.object members) = .ok d ↔
      ∃ name, FieldRead "name" Json.toName members name ∧ name.getD none = d.name ∧
        FieldRead "pattern" Json.toText members (some d.pattern) := by
  simp only [ofJson, bind_eq_ok_iff, Fields.foldlM_read_eq_ok_iff, Fields.start,
    Json.foldlM_readField_eq_ok_iff, Fields.finish_eq_ok_iff]
  constructor
  · rintro ⟨f, ⟨hname, hpattern⟩, hd, hsome⟩
    exact ⟨f.name, hname, hd, hsome ▸ hpattern⟩
  · rintro ⟨name, hname, hd, hpattern⟩
    exact ⟨⟨name, some d.pattern⟩, ⟨hname, hpattern⟩, hd, rfl⟩

theorem fieldRead_pattern_iff {s : String} :
    FieldRead "pattern" Json.toText members (some s) ↔ HoldsOnce "pattern" (.string s) members := by
  constructor
  · intro h
    cases h with
    | present hold hs => exact Json.toText_eq_ok_iff.mp hs ▸ hold
  · exact fun hold => .present hold rfl

theorem ofJson_array_eq_ok_iff {items : List Json} :
    ofJson (.array items) = .ok d ↔ ∃ value, value.IsName d.name ∧ items = [value, .string d.pattern] := by
  match items with
  | [] => simp [ofJson]
  | [first] => simp [ofJson, bind_eq_ok_iff, throw, throwThe, MonadExceptOf.throw]
  | first :: second :: rest =>
    simp only [ofJson, bind_eq_ok_iff, Json.toName_eq_ok_iff, Json.toText_eq_ok_iff]
    constructor
    · rintro ⟨name, hname, pattern, rfl, hlast⟩
      split at hlast
      · next hrest =>
        cases hlast
        exact ⟨first, hname, by rw [hrest]⟩
      · cases hlast
    · rintro ⟨value, hname, heq⟩
      cases heq
      exact ⟨d.name, hname, d.pattern, rfl, rfl⟩

/-- **A value is read as the definition that it denotes.** -/
theorem ofJson_eq_ok_iff : ofJson value = .ok d ↔ d.DenotedBy value := by
  constructor
  · intro h
    cases value with
    | object members =>
      obtain ⟨name, hname, hd, hpattern⟩ := ofJson_object_eq_ok_iff.mp h
      cases hname with
      | absent hnot => exact .unnamed hnot hd.symm (fieldRead_pattern_iff.mp hpattern)
      | present hold hread =>
        cases hd
        exact .named hold (Json.toName_eq_ok_iff.mp hread) (fieldRead_pattern_iff.mp hpattern)
    | array items =>
      obtain ⟨value, hname, rfl⟩ := ofJson_array_eq_ok_iff.mp h
      exact .pair hname
    | null | bool | number | string | undecodable => cases h
  · intro h
    cases h with
    | unnamed hnot hd hold =>
      exact ofJson_object_eq_ok_iff.mpr ⟨none, .absent hnot, hd.symm, fieldRead_pattern_iff.mpr hold⟩
    | named hold hname hold' =>
      exact ofJson_object_eq_ok_iff.mpr
        ⟨some d.name, .present hold (Json.toName_eq_ok_iff.mpr hname), rfl, fieldRead_pattern_iff.mpr hold'⟩
    | pair hname => exact ofJson_array_eq_ok_iff.mpr ⟨_, hname, rfl⟩

theorem DenotedBy.of_perm (h : d.DenotedBy (.object members)) (hperm : members.Perm members') :
    d.DenotedBy (.object members') := by
  cases h with
  | unnamed hnot hd hold =>
    have hnot' : "name" ∉ keys members' := fun hmem => hnot ((Json.keys_perm hperm).mem_iff.mpr hmem)
    exact .unnamed hnot' hd (hold.of_perm hperm)
  | named hold hname hold' => exact .named (hold.of_perm hperm) hname (hold'.of_perm hperm)

/-- A name that is null counts for none, as one that is absent does. -/
theorem denotedBy_null_name_iff (h : "name" ∉ keys members) :
    d.DenotedBy (.object (("name", .null) :: members)) ↔ d.DenotedBy (.object members) := by
  constructor
  · intro hd
    cases hd with
    | unnamed hnot => exact absurd List.mem_cons_self hnot
    | named hold hname hold' =>
      obtain ⟨rfl, -⟩ := Json.holdsOnce_cons_self.mp hold
      have hnone : d.name = none := by
        generalize d.name = name at hname
        cases hname
        rfl
      exact .unnamed h hnone ((Json.holdsOnce_cons_of_ne (by decide)).mp hold')
  · intro hd
    cases hd with
    | unnamed _ hnone hold =>
      exact .named (Json.holdsOnce_cons_self.mpr ⟨rfl, h⟩) (hnone ▸ .null)
        ((Json.holdsOnce_cons_of_ne (by decide)).mpr hold)
    | named hold => exact absurd (List.mem_map_of_mem hold.here) h

end PatternDef

/-! ## The definition of a group -/

namespace GroupDef

/-- What denotes a definition: an object with an array under `patterns`, or an
array of that array, whose items denote the entries in their order. -/
inductive DenotedBy (d : GroupDef) : Json → Prop
  | object {members : List (String × Json)} {items : List Json} : HoldsOnce "patterns" (.array items) members →
      List.Forall₂ PatternDef.DenotedBy d.patterns items → DenotedBy d (.object members)
  | single {items : List Json} : List.Forall₂ PatternDef.DenotedBy d.patterns items →
      DenotedBy d (.array [.array items])

variable {d : GroupDef} {value : Json} {members members' : List (String × Json)}

theorem patternsOfJson_eq_ok_iff :
    patternsOfJson value = .ok d ↔
      ∃ items, value = .array items ∧ List.Forall₂ PatternDef.DenotedBy d.patterns items := by
  cases value with
  | array items =>
    obtain ⟨entries⟩ := d
    have hmade : makeAll (fun _ => PatternDef.ofJson) 0 items = .ok entries ↔
        Made PatternDef.ofJson items entries := makeAll_eq_ok_iff_made
    have hmap : patternsOfJson (.array items) = .ok ⟨entries⟩ ↔
        makeAll (fun _ => PatternDef.ofJson) 0 items = .ok entries := by
      rw [patternsOfJson]
      cases makeAll (fun _ => PatternDef.ofJson) 0 items <;> simp [Except.map]
    rw [hmap, hmade]
    simp only [Made, PatternDef.ofJson_eq_ok_iff, Json.array.injEq, exists_eq_left']
    exact ⟨.flip, .flip⟩
  | null | bool | number | string | object | undecodable => simp [patternsOfJson]

theorem ofJson_object_eq_ok_iff :
    ofJson (.object members) = .ok d ↔ FieldRead "patterns" patternsOfJson members (some d) := by
  rw [ofJson, bind_eq_ok_iff]
  simp only [Json.foldlM_readField_eq_ok_iff]
  constructor
  · rintro ⟨slot, hread, hd⟩
    cases slot with
    | none => cases hd
    | some d' =>
      cases hd
      exact hread
  · exact fun hread => ⟨some d, hread, rfl⟩

theorem ofJson_array_eq_ok_iff {items : List Json} :
    ofJson (.array items) = .ok d ↔ ∃ value, patternsOfJson value = .ok d ∧ items = [value] := by
  cases items with
  | nil => simp [ofJson]
  | cons first rest =>
    rw [ofJson, bind_eq_ok_iff]
    constructor
    · rintro ⟨d', hread, hlast⟩
      split at hlast
      · next hrest =>
        cases hlast
        exact ⟨first, hread, by rw [hrest]⟩
      · cases hlast
    · rintro ⟨value, hread, heq⟩
      cases heq
      exact ⟨d, hread, rfl⟩

/-- **A value is read as the definition that it denotes.** -/
theorem ofJson_eq_ok_iff : ofJson value = .ok d ↔ d.DenotedBy value := by
  constructor
  · intro h
    cases value with
    | object members =>
      cases ofJson_object_eq_ok_iff.mp h with
      | present hold hread =>
        obtain ⟨items, rfl, hitems⟩ := patternsOfJson_eq_ok_iff.mp hread
        exact .object hold hitems
    | array items =>
      obtain ⟨value, hread, rfl⟩ := ofJson_array_eq_ok_iff.mp h
      obtain ⟨items, rfl, hitems⟩ := patternsOfJson_eq_ok_iff.mp hread
      exact .single hitems
    | null | bool | number | string | undecodable => cases h
  · intro h
    cases h with
    | object hold hitems =>
      exact ofJson_object_eq_ok_iff.mpr (.present hold (patternsOfJson_eq_ok_iff.mpr ⟨_, rfl, hitems⟩))
    | single hitems =>
      exact ofJson_array_eq_ok_iff.mpr ⟨_, patternsOfJson_eq_ok_iff.mpr ⟨_, rfl, hitems⟩, rfl⟩

theorem DenotedBy.of_perm (h : d.DenotedBy (.object members)) (hperm : members.Perm members') :
    d.DenotedBy (.object members') := by
  cases h with
  | object hold hitems => exact .object (hold.of_perm hperm) hitems

end GroupDef

/-! ## What a reading depends on -/

/-- Both values are read as the same definition, or neither as any. -/
def SameReading {α : Type} (ofJson : Json → Except Misfit α) (value value' : Json) : Prop :=
  ∀ a, ofJson value = .ok a ↔ ofJson value' = .ok a

/-- Of an object, what is under these keys is read, wherever it stands. -/
structure ReadsByKey {α : Type} (known : List String) (ofJson : Json → Except Misfit α) : Prop where
  perm {members members' : List (String × Json)} : members.Perm members' →
    SameReading ofJson (.object members) (.object members')
  /-- Even the fault is the same without what is under another key. -/
  unknown {key : String} : key ∉ known → ∀ (value : Json) (above below : List (String × Json)),
    ofJson (.object (above ++ (key, value) :: below)) = ofJson (.object (above ++ below))

theorem PatternDef.readsByKey : ReadsByKey ["name", "pattern"] PatternDef.ofJson where
  perm hperm d := by
    simp only [ofJson_eq_ok_iff]
    exact ⟨fun h => h.of_perm hperm, fun h => h.of_perm hperm.symm⟩
  unknown {key} hkey value above below := by
    simp only [List.mem_cons, List.not_mem_nil, or_false, not_or] at hkey
    have hskip : ∀ f, Fields.read f (key, value) = .ok f := by
      intro f
      rw [Fields.read_eq_ok_iff]
      exact ⟨Json.readField_of_ne hkey.1 _, Json.readField_of_ne hkey.2 _⟩
    simp only [ofJson, foldlM_append_cons_of_skip hskip]

theorem GroupDef.readsByKey : ReadsByKey ["patterns"] GroupDef.ofJson where
  perm hperm d := by
    simp only [ofJson_eq_ok_iff]
    exact ⟨fun h => h.of_perm hperm, fun h => h.of_perm hperm.symm⟩
  unknown {key} hkey value above below := by
    have hne : key ≠ "patterns" := List.ne_of_not_mem_cons hkey
    simp only [ofJson, foldlM_append_cons_of_skip (Json.readField_of_ne hne)]

namespace GroupDef

variable {items items' : List Json}

theorem forall₂_denotedBy_congr (h : List.Forall₂ (SameReading PatternDef.ofJson) items items')
    (entries : List PatternDef) :
    List.Forall₂ PatternDef.DenotedBy entries items ↔ List.Forall₂ PatternDef.DenotedBy entries items' := by
  induction h generalizing entries with
  | nil => rfl
  | @cons item item' _ _ hitem _ ih =>
    have hentry : ∀ entry : PatternDef, entry.DenotedBy item ↔ entry.DenotedBy item' := by
      intro entry
      rw [← PatternDef.ofJson_eq_ok_iff, hitem, PatternDef.ofJson_eq_ok_iff]
    cases entries with
    | nil => simp only [List.forall₂_nil_left_iff, reduceCtorEq]
    | cons entry entries => simp only [List.forall₂_cons, hentry, ih]

theorem denotedBy_object_cons_iff {d : GroupDef} {rest : List (String × Json)} :
    d.DenotedBy (.object (("patterns", .array items) :: rest)) ↔
      "patterns" ∉ keys rest ∧ List.Forall₂ PatternDef.DenotedBy d.patterns items := by
  constructor
  · intro hd
    cases hd with
    | object hold hitems =>
      obtain ⟨heq, hnot⟩ := Json.holdsOnce_cons_self.mp hold
      cases heq
      exact ⟨hnot, hitems⟩
  · rintro ⟨hnot, hitems⟩
    exact .object (Json.holdsOnce_cons_self.mpr ⟨rfl, hnot⟩) hitems

theorem sameReading_object (h : List.Forall₂ (SameReading PatternDef.ofJson) items items')
    (rest : List (String × Json)) :
    SameReading ofJson (.object (("patterns", .array items) :: rest))
      (.object (("patterns", .array items') :: rest)) := by
  intro d
  simp only [ofJson_eq_ok_iff, denotedBy_object_cons_iff, forall₂_denotedBy_congr h]

theorem sameReading_array (h : List.Forall₂ (SameReading PatternDef.ofJson) items items') :
    SameReading ofJson (.array [.array items]) (.array [.array items']) := by
  intro d
  rw [ofJson_array_eq_ok_iff, ofJson_array_eq_ok_iff]
  simp [patternsOfJson_eq_ok_iff, forall₂_denotedBy_congr h]

end GroupDef

/-- **Which values denote definitions**: one is read from just the values that
denote it, whatever the order of members and whatever is under unknown keys, at
both levels alike. A null name is an absent one, any string is a present one,
and what is written is read again, to the same group or the same error. -/
theorem definitions_of_json :
    (∀ value d, PatternDef.ofJson value = .ok d ↔ d.DenotedBy value) ∧
      (∀ value d, GroupDef.ofJson value = .ok d ↔ d.DenotedBy value) ∧
      ReadsByKey ["name", "pattern"] PatternDef.ofJson ∧
      ReadsByKey ["patterns"] GroupDef.ofJson ∧
      (∀ items items', List.Forall₂ (SameReading PatternDef.ofJson) items items' →
        (∀ rest, SameReading GroupDef.ofJson (.object (("patterns", .array items) :: rest))
            (.object (("patterns", .array items') :: rest))) ∧
          SameReading GroupDef.ofJson (.array [.array items]) (.array [.array items'])) ∧
      (∀ members, "name" ∉ keys members →
        SameReading PatternDef.ofJson (.object (("name", .null) :: members)) (.object members)) ∧
      (∀ s pattern members, HoldsOnce "name" (.string s) members → HoldsOnce "pattern" (.string pattern) members →
        PatternDef.ofJson (.object members) = .ok ⟨some s, pattern⟩) ∧
      (∀ d : PatternDef, PatternDef.ofJson d.toJson = .ok d) ∧
      ∀ d : GroupDef, GroupDef.ofJson d.toJson = .ok d ∧
        ∀ σ, (GroupDef.ofJson d.toJson).map (GroupDef.toGroupBy σ) = .ok (d.toGroupBy σ) := by
  refine ⟨fun _ _ => PatternDef.ofJson_eq_ok_iff, fun _ _ => GroupDef.ofJson_eq_ok_iff,
    PatternDef.readsByKey, GroupDef.readsByKey, ?items, ?null, ?string, ?pattern, ?group⟩
  case items => exact fun _ _ h => ⟨GroupDef.sameReading_object h, GroupDef.sameReading_array h⟩
  case null =>
    intro members h d
    simp only [PatternDef.ofJson_eq_ok_iff, PatternDef.denotedBy_null_name_iff h]
  case string =>
    intro s pattern members hname hpattern
    exact PatternDef.ofJson_eq_ok_iff.mpr (.named hname (.string s) hpattern)
  case pattern => exact PatternDef.ofJson_toJson
  case group =>
    intro d
    refine ⟨GroupDef.ofJson_toJson d, fun σ => ?_⟩
    rw [GroupDef.ofJson_toJson]
    rfl

/-- An unknown key may come up twice, and the name that it stands between is
there though it is empty. -/
example : (PatternDef.ofJson (.object [("size", .null), ("name", .string ""), ("size", .bool true),
    ("pattern", .string "01v")])).toOption = some ⟨some "", "01v"⟩ := by decide

end WordPattern
