/-
Why a spec is refused: it is empty, or its widths add up to more than a word, or
else the first bad part decides, `firstFault?_eq_some_iff`. Names decide
nothing, `compile_unnamed`. `compile_outcome` puts the outcomes together.
-/
import WordPattern.Proofs.Concatenation
import WordPattern.Proofs.First

namespace WordPattern

open Word (size)

/-! ## Without names -/

/-- A part without its name. -/
def Part.unnamed : Part → Part
  | .literal bit => .literal bit
  | .field width _ => .field width none

/-- The same bits without a name. -/
def Capture.unnamed (c : Capture) : Capture := { c with name := none }

/-- The same pattern with neither a name nor names for its fields. -/
def Pattern.unnamed (p : Pattern) : Pattern := { p with name := none, captures := p.captures.map Capture.unnamed }

namespace Spec

/-- The same spec without names for its fields. -/
def unnamed (s : Spec) : Spec := ⟨s.parts.map Part.unnamed⟩

@[simp] theorem widthOf_unnamed (ps : List Part) : widthOf (ps.map Part.unnamed) = widthOf ps := by
  induction ps with
  | nil => rfl
  | cons part rest ih =>
    rw [List.map_cons, widthOf, widthOf, ih]
    cases part <;> rfl

@[simp] theorem setMask_unnamed (ps : List Part) : setMask (ps.map Part.unnamed) = setMask ps := by
  induction ps with
  | nil => rfl
  | cons part rest ih => cases part <;> simp [setMask, Part.unnamed, ih]

@[simp] theorem fixedMask_unnamed (ps : List Part) : fixedMask (ps.map Part.unnamed) = fixedMask ps := by
  induction ps with
  | nil => rfl
  | cons part rest ih => cases part <;> simp [fixedMask, Part.unnamed, ih]

@[simp] theorem captures_unnamed (ps : List Part) :
    captures (ps.map Part.unnamed) = (captures ps).map Capture.unnamed := by
  induction ps with
  | nil => rfl
  | cons part rest ih => cases part <;> simp [captures, Part.unnamed, Capture.unnamed, ih]

@[simp] theorem firstFault?_unnamed (index : Nat) (ps : List Part) :
    firstFault? index (ps.map Part.unnamed) = firstFault? index ps := by
  induction ps generalizing index with
  | nil => rfl
  | cons part rest ih =>
    rw [List.map_cons, firstFault?, firstFault?, ih]
    cases part <;> rfl

theorem fault?_unnamed (s : Spec) : s.unnamed.fault? = s.fault? := by
  simp only [fault?, unnamed, totalWidth, widthOf_unnamed, firstFault?_unnamed]
  exact if_congr List.map_eq_nil_iff rfl rfl

theorem layOut_unnamed (name : Option String) (s : Spec) :
    s.unnamed.layOut none = (s.layOut name).unnamed := by
  simp [layOut, unnamed, Pattern.unnamed, totalWidth]

/-- **Compiling does not look at names.** -/
theorem compile_unnamed (name : Option String) (s : Spec) :
    s.unnamed.compile none = (s.compile name).map Pattern.unnamed := by
  rw [compile_eq, compile_eq, fault?_unnamed, layOut_unnamed name]
  cases s.fault? <;> rfl

/-! ## Bad parts -/

/-- What is bad about a part, at its position. -/
inductive BadPart (ps : List Part) : Nat → CompileError → Prop where
  | literal {i bit} : ps[i]? = some (.literal bit) → 1 < bit → BadPart ps i (.invalidLiteral i bit)
  | field {i name} : ps[i]? = some (.field 0 name) → BadPart ps i (.emptyField i)

variable {ps : List Part} {i : Nat} {e : CompileError}

theorem one_lt_iff_not_bit {bit : UInt8} : 1 < bit ↔ ¬ (bit = 0 ∨ bit = 1) := by
  rw [UInt8.lt_iff_toNat_lt, ← UInt8.toNat_inj, ← UInt8.toNat_inj]
  simp only [UInt8.toNat_ofNat]
  omega

theorem badPart_iff : BadPart ps i e ↔ ∃ part, ps[i]? = some part ∧ partFault? i part = some e := by
  constructor
  · intro h
    cases h with
    | literal hp hbit => exact ⟨_, hp, if_neg (one_lt_iff_not_bit.mp hbit)⟩
    | field hp => exact ⟨_, hp, rfl⟩
  · intro ⟨part, hp, he⟩
    cases part with
    | literal bit =>
      rw [partFault?] at he
      split at he
      · cases he
      · next hbit =>
        cases he
        exact .literal hp (one_lt_iff_not_bit.mpr hbit)
    | field width name =>
      rw [partFault?] at he
      split at he
      · next hw =>
        subst hw
        cases he
        exact .field hp
      · cases he

theorem valid_of_no_bad (h : ∀ i e, ¬ BadPart ps i e) : ∀ part ∈ ps, part.Valid := by
  intro part hpart
  obtain ⟨i, hi⟩ := List.mem_iff_getElem?.mp hpart
  rw [← @partFault?_eq_none_iff i, Option.eq_none_iff_forall_not_mem]
  intro e he
  exact h i e (badPart_iff.mpr ⟨part, hi, he⟩)

theorem not_badPart_of_valid (h : ∀ part ∈ ps, part.Valid) : ¬ BadPart ps i e := by
  intro hbad
  obtain ⟨part, hp, he⟩ := badPart_iff.mp hbad
  rw [partFault?_eq_none_iff.mpr (h part (List.mem_of_getElem? hp))] at he
  cases he

theorem firstFault?_of_first (h : First (BadPart ps) i e) : firstFault? 0 ps = some e := by
  obtain ⟨part, hp, he⟩ := badPart_iff.mp h.here
  have hbefore : firstFault? 0 (ps.take i) = none := by
    refine firstFault?_eq_none_iff.mpr (valid_of_no_bad fun j e' hbad => ?_)
    obtain ⟨part', hp', he'⟩ := badPart_iff.mp hbad
    obtain ⟨hj, hp'⟩ := getElem?_of_take hp'
    exact h.earlier j hj e' (badPart_iff.mpr ⟨part', hp', he'⟩)
  rw [← take_append_cons_drop hp, firstFault?_append, hbefore, Option.none_or, Nat.zero_add,
    length_take_of_getElem? hp, firstFault?, he]

theorem firstFault?_eq_some_iff : firstFault? 0 ps = some e ↔ ∃ i, First (BadPart ps) i e := by
  refine ⟨fun h => ?_, fun ⟨i, hi⟩ => firstFault?_of_first hi⟩
  have hbad : ∃ i e, BadPart ps i e := by
    by_contra hnone
    simp only [not_exists] at hnone
    rw [firstFault?_eq_none_iff.mpr (valid_of_no_bad hnone)] at h
    cases h
  obtain ⟨i, e', hi⟩ := exists_first hbad
  obtain rfl := Option.some.inj ((firstFault?_of_first hi).symm.trans h)
  exact ⟨i, hi⟩

/-! ## The outcome -/

variable {s : Spec}

theorem fault?_eq_empty_iff : s.fault? = some .emptyPattern ↔ s.parts = [] := by
  rw [fault?]
  split
  · next h => exact iff_of_true rfl h
  split
  · next h _ => exact iff_of_false (by simp) h
  · next h _ =>
    refine iff_of_false (fun hfault => ?_) h
    obtain ⟨i, hi⟩ := firstFault?_eq_some_iff.mp hfault
    cases hi.here

theorem fault?_eq_tooLong_iff :
    s.fault? = some (.tooLong s.totalWidth size) ↔ s.parts ≠ [] ∧ size < s.totalWidth := by
  rw [fault?]
  split
  · next h => exact iff_of_false (by simp) fun h' => h'.1 h
  split
  · next hne hlong => exact iff_of_true rfl ⟨hne, hlong⟩
  · next hfit =>
    refine iff_of_false (fun hfault => ?_) fun h => hfit h.2
    obtain ⟨i, hi⟩ := firstFault?_eq_some_iff.mp hfault
    cases hi.here

theorem valid_iff : s.Valid ↔ s.parts ≠ [] ∧ s.totalWidth ≤ size ∧ ∀ i e, ¬ BadPart s.parts i e :=
  ⟨fun h => ⟨h.nonempty, h.fits, fun _ _ => not_badPart_of_valid h.parts⟩,
    fun ⟨hne, hfit, hbad⟩ => ⟨hne, hfit, valid_of_no_bad hbad⟩⟩

/-- **What becomes of a spec.** It is empty exactly when it has no parts, and
too long exactly when it has some that add up to more than a word. If they fit,
it is refused for the first bad part, and compiles without one. Names have no
say in this. -/
theorem compile_outcome (name : Option String) (s : Spec) :
    let width := (s.parts.map Part.width).sum
    (s.compile name = .error .emptyPattern ↔ s.parts = []) ∧
    (s.compile name = .error (.tooLong width size) ↔ s.parts ≠ [] ∧ size < width) ∧
    (s.parts ≠ [] → width ≤ size → (∃ i e, BadPart s.parts i e) →
      ∃ i e, First (BadPart s.parts) i e ∧ s.compile name = .error e) ∧
    ((∃ p, s.compile name = .ok p) ↔
      s.parts ≠ [] ∧ width ≤ size ∧ ∀ i e, ¬ BadPart s.parts i e) ∧
    ∀ (name' : Option String) (t : Spec), t.unnamed = s.unnamed →
      (t.compile name').map Pattern.unnamed = (s.compile name).map Pattern.unnamed := by
  intro width
  have hwidth : width = s.totalWidth := (widthOf_eq_sum s.parts).symm
  rw [hwidth]
  refine ⟨?_, ?_, fun hne hfit hbad => ?_, ?_, fun name' t ht => ?_⟩
  · rw [compile_eq_error_iff, fault?_eq_empty_iff]
  · rw [compile_eq_error_iff, fault?_eq_tooLong_iff]
  · obtain ⟨i, e, hi⟩ := exists_first hbad
    refine ⟨i, e, hi, ?_⟩
    rw [compile_eq_error_iff, fault?_eq_firstFault? hne hfit, firstFault?_of_first hi]
  · simp only [compile_eq_ok_iff, exists_and_left, exists_eq', and_true, valid_iff]
  · rw [← compile_unnamed, ← compile_unnamed, ht]

/-- Too long counts before a bad part in front. -/
example : compile none ⟨[.literal 7, .field 0xFFFFFFFF none]⟩ = .error (.tooLong 4294967296 32) := by decide

end Spec
end WordPattern
