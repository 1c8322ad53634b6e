/-
Fixing a field: literals that write one of its values take its place. The rest of
the layout stays where it is, so the new pattern is the old one on the words
with this value in the field, `capture_fix_field`.
-/
import WordPattern.Proofs.Assembly
import WordPattern.Proofs.Concatenation
import WordPattern.Proofs.Dispatch

namespace WordPattern

open Word (size)

namespace Spec

variable {above below mid mid' : List Part} {bits : List Bool}

/-! ## Literals for bits -/

/-- Literals that write `bits`, the most significant first. -/
def literals (bits : List Bool) : List Part := bits.map fun bit => .literal (if bit then 1 else 0)

theorem literals_cons (bit : Bool) (bits : List Bool) :
    literals (bit :: bits) = .literal (if bit then 1 else 0) :: literals bits := rfl

@[simp] theorem length_literals (bits : List Bool) : (literals bits).length = bits.length := List.length_map _

theorem valid_of_mem_literals (bits : List Bool) : ∀ part ∈ literals bits, part.Valid := by
  refine List.forall_mem_map.mpr fun bit _ => ?_
  cases bit <;> decide

@[simp] theorem widthOf_literals (bits : List Bool) : widthOf (literals bits) = bits.length := by
  induction bits with
  | nil => rfl
  | cons bit bits ih => rw [literals_cons, widthOf, ih, Part.width, List.length_cons, Nat.add_comm]

theorem captures_literals (bits : List Bool) : captures (literals bits) = [] := by
  induction bits with
  | nil => rfl
  | cons bit bits ih => exact ih

theorem fieldWidths_literals (bits : List Bool) : fieldWidths (literals bits) = [] := by
  induction bits with
  | nil => rfl
  | cons bit bits ih => exact ih

theorem assemble_literals (bits : List Bool) (vs : List Word) :
    assemble 0 (literals bits) vs = Word.number bits := by
  induction bits with
  | nil => rfl
  | cons bit bits ih =>
    rw [literals_cons, assemble_literal, ih, widthOf_literals, Word.number]
    cases bit <;> rfl

/-- A word holds them at its lower end when its lowest bits are the number that
they write. -/
theorem literalsIn_literals (h : bits.length ≤ size) (w : Word) :
    LiteralsIn w (literals bits) ↔ w.toNat % 2 ^ bits.length = Word.number bits := by
  have hvalues := values_iff_assemble (valid_of_mem_literals bits) (by rwa [widthOf_literals]) w []
  simpa only [captures_literals, List.map_nil, and_true, Fit, fieldWidths_literals, List.Forall₂.nil, true_and,
    widthOf_literals, assemble_literals] using hvalues

/-! ## Parts in the middle -/

/-- Other parts of the same width may take the place of parts in the middle. -/
theorem Valid.replace (h : Spec.Valid ⟨above ++ (mid ++ below)⟩) (hne : mid' ≠ [])
    (hvalid : ∀ part ∈ mid', part.Valid) (hwidth : widthOf mid' = widthOf mid) :
    Spec.Valid ⟨above ++ (mid' ++ below)⟩ := by
  obtain ⟨-, hfits, hparts⟩ := h
  refine ⟨by simp [hne], ?_, ?_⟩
  · simpa only [totalWidth, widthOf_append, hwidth] using hfits
  · simp only [List.forall_mem_append] at hparts ⊢
    exact ⟨hparts.1, hvalid, hparts.2.2⟩

/-! ## Literals for a field -/

variable {width : UInt32} {fieldName : Option String}

theorem values_field (hv : ∀ part ∈ above, part.Valid) (w : Word) :
    (captures (above ++ .field width fieldName :: below)).map (·.extract w) =
      (captures above).map (·.extract (w >>> (width.toNat + widthOf below))) ++
        w.extract (widthOf below + width.toNat - 1) width.toNat :: (captures below).map (·.extract w) :=
  values_append hv w

theorem values_literals (hv : ∀ part ∈ above, part.Valid) (hbits : bits.length = width.toNat) (w : Word) :
    (captures (above ++ (literals bits ++ below))).map (·.extract w) =
      (captures above).map (·.extract (w >>> (width.toNat + widthOf below))) ++
        (captures below).map (·.extract w) := by
  rw [values_append hv, captures_append (valid_of_mem_literals bits), captures_literals, widthOf_append,
    widthOf_literals, hbits]
  rfl

/-- Literals in the place of a field ask for their number as its value, and
for no more. -/
theorem literalsIn_literals_for_field (fieldName : Option String) (hwidth : 0 < width.toNat)
    (hbits : bits.length = width.toNat) (hfit : width.toNat + widthOf below ≤ size) (w : Word) :
    LiteralsIn w (above ++ (literals bits ++ below)) ↔
      LiteralsIn w (above ++ .field width fieldName :: below) ∧
        (w.extract (widthOf below + width.toNat - 1) width.toNat).toNat = Word.number bits := by
  have hlits : LiteralsIn (w >>> widthOf below) (literals bits) ↔
      (w.extract (widthOf below + width.toNat - 1) width.toNat).toNat = Word.number bits := by
    rw [literalsIn_literals (by omega), Word.toNat_extract_above w hwidth hfit, BitVec.toNat_ushiftRight,
      Nat.shiftRight_eq_div_pow, hbits]
  rw [literalsIn_append, literalsIn_append, literalsIn_append, hlits, widthOf_append, widthOf_literals, hbits,
    LiteralsIn, widthOf, Part.width]
  tauto

theorem getElem?_values_field (hv : ∀ part ∈ above, part.Valid) (w : Word) :
    let vs := (captures (above ++ .field width fieldName :: below)).map (·.extract w)
    vs[above.countP Part.isField]? = some (w.extract (widthOf below + width.toNat - 1) width.toNat) := by
  simp only [values_field hv]
  rw [List.getElem?_append_right (by simp [length_captures])]
  simp [length_captures]

theorem eraseIdx_values_field (hv : ∀ part ∈ above, part.Valid) (hbits : bits.length = width.toNat) (w : Word) :
    ((captures (above ++ .field width fieldName :: below)).map (·.extract w)).eraseIdx
        (above.countP Part.isField) =
      (captures (above ++ (literals bits ++ below))).map (·.extract w) := by
  rw [values_field hv, values_literals hv hbits, List.eraseIdx_append_of_length_le (by simp [length_captures])]
  simp [length_captures]

/-! ## Fixing a field -/

theorem Valid.field_width_pos (h : Spec.Valid ⟨above ++ .field width fieldName :: below⟩) : 0 < width.toNat :=
  (h.parts (.field width fieldName) (by simp)).width_pos

theorem Valid.field_fits (h : Spec.Valid ⟨above ++ .field width fieldName :: below⟩) :
    width.toNat + widthOf below ≤ size := by
  have hfits := h.fits
  simp only [totalWidth, widthOf_append, widthOf, Part.width] at hfits
  omega

theorem Valid.fix_field (h : Spec.Valid ⟨above ++ .field width fieldName :: below⟩)
    (hbits : bits.length = width.toNat) : Spec.Valid ⟨above ++ (literals bits ++ below)⟩ := by
  have hwidth : 0 < width.toNat := h.field_width_pos
  have h' : Spec.Valid ⟨above ++ ([.field width fieldName] ++ below)⟩ := h
  refine h'.replace ?_ (valid_of_mem_literals bits) ?_
  · exact List.ne_nil_of_length_pos (by rwa [length_literals, hbits])
  · rw [widthOf_literals, hbits]
    rfl

theorem capture_layOut_literals (name name' : Option String)
    (h : Spec.Valid ⟨above ++ .field width fieldName :: below⟩) (hbits : bits.length = width.toNat) (w : Word)
    (vs' : List Word) :
    (layOut name' ⟨above ++ (literals bits ++ below)⟩).capture w = some vs' ↔
      ∃ vs v, (layOut name ⟨above ++ .field width fieldName :: below⟩).capture w = some vs ∧
        vs[above.countP Part.isField]? = some v ∧ v.toNat = Word.number bits ∧
        vs' = vs.eraseIdx (above.countP Part.isField) := by
  have habove : ∀ part ∈ above, part.Valid := fun part hpart => h.parts part (List.mem_append_left _ hpart)
  rw [Pattern.capture_eq_some_iff, accepts_layOut (h.fix_field hbits).fits,
    literalsIn_literals_for_field fieldName h.field_width_pos hbits h.field_fits]
  simp only [Pattern.capture_eq_some_iff, accepts_layOut h.fits]
  constructor
  · rintro ⟨⟨hlits, hnumber⟩, rfl⟩
    exact ⟨_, _, ⟨hlits, rfl⟩, getElem?_values_field habove w, hnumber,
      (eraseIdx_values_field habove hbits w).symm⟩
  · rintro ⟨vs, v, ⟨hlits, rfl⟩, hv, hnumber, rfl⟩
    obtain rfl := Option.some.inj ((getElem?_values_field habove w).symm.trans hv)
    exact ⟨⟨hlits, hnumber⟩, (eraseIdx_values_field habove hbits w).symm⟩

theorem specificity_layOut_literals (name name' fieldName : Option String) (above below : List Part)
    (hbits : bits.length = width.toNat) :
    (layOut name' ⟨above ++ (literals bits ++ below)⟩).specificity =
      (layOut name ⟨above ++ .field width fieldName :: below⟩).specificity + width.toNat := by
  have habove := List.countP_le_length (p := Part.isField) (l := above)
  have hbelow := List.countP_le_length (p := Part.isField) (l := below)
  have hnone : (literals bits).countP Part.isField = 0 := by
    rw [← length_captures, captures_literals, List.length_nil]
  simp only [layOut, length_captures, List.length_append, List.countP_append, hnone, length_literals, hbits,
    List.length_cons, List.countP_cons, Part.isField, ↓reduceIte]
  omega

/-- **Fixing a field specialises a pattern.** With literals for the field after
`above`, a spec still compiles, to the same length, more specific by the field's
width. It captures what the old pattern does beside the field, from the words
with the literals' number in it, and in a group these never go to the old
pattern. -/
theorem capture_fix_field {name : Option String} {p : Pattern}
    (h : Spec.compile name ⟨above ++ .field width fieldName :: below⟩ = .ok p)
    (hbits : bits.length = width.toNat) (name' : Option String) :
    let j := above.countP Part.isField
    ∃ p', Spec.compile name' ⟨above ++ (literals bits ++ below)⟩ = .ok p' ∧
      p'.length = p.length ∧ p'.specificity = p.specificity + width.toNat ∧
      (∀ (w : Word) (vs' : List Word), p'.capture w = some vs' ↔
        ∃ vs v, p.capture w = some vs ∧ vs[j]? = some v ∧ v.toNat = Word.number bits ∧ vs' = vs.eraseIdx j) ∧
      ∀ g : Group, p ∈ g.patterns → p' ∈ g.patterns → ∀ (w : Word) (vs : List Word) (v : Word),
        p.capture w = some vs → vs[j]? = some v → v.toNat = Word.number bits →
          ∃ q, g.find w = some q ∧ p'.specificity ≤ q.specificity ∧ q ≠ p := by
  obtain ⟨hv, rfl⟩ := compile_eq_ok_iff.mp h
  have hspec := specificity_layOut_literals name name' fieldName above below hbits
  have hcapture := capture_layOut_literals name name' hv hbits
  refine ⟨_, compile_eq_ok_iff.mpr ⟨hv.fix_field hbits, rfl⟩, ?_, hspec, hcapture, ?_⟩
  · simp only [layOut, totalWidth, widthOf_append, widthOf_literals, widthOf, Part.width, hbits]
  · intro g _ hmem' w vs v hvs hj hnumber
    have hwidth : 0 < width.toNat := hv.field_width_pos
    have haccepts := Pattern.accepts_iff_capture.mpr ⟨_, (hcapture w _).mpr ⟨vs, v, hvs, hj, hnumber, rfl⟩⟩
    obtain ⟨q, hq⟩ := Group.exists_find_of_accepts hmem' haccepts
    have hle := (Group.find_mostSpecific hq).top _ hmem' haccepts
    refine ⟨q, hq, hle, fun hqp => ?_⟩
    rw [hqp, hspec] at hle
    omega

/-- The lower of two fields, fixed to the value 2. -/
theorem capture_fix_field_second :
    let move : Spec := ⟨[.literal 0, .literal 1, .field 2 (some "d"), .field 2 (some "s")]⟩
    let fixed : Spec := ⟨[.literal 0, .literal 1, .field 2 (some "d"), .literal 1, .literal 0]⟩
    move.compile none = .ok (move.layOut none) ∧ [true, false].length = (2 : UInt32).toNat ∧
    ∃ p', fixed.compile none = .ok p' ∧ p'.specificity = 4 ∧ p'.capture 0b011110#32 = some [0b11#32] ∧
      ∃ g, Group.ofListBy .stable [move.layOut none, p'] = .ok g ∧
        ∃ q, g.find 0b011110#32 = some q ∧ p'.specificity ≤ q.specificity ∧ q ≠ move.layOut none := by
  intro move fixed
  have hmove : Spec.compile none ⟨[.literal 0, .literal 1, .field 2 (some "d")] ++ .field 2 (some "s") :: []⟩ =
      .ok (move.layOut none) := by decide
  have hbits : [true, false].length = (2 : UInt32).toNat := by decide
  have hvs : (move.layOut none).capture 0b011110#32 = some [0b11#32, 0b10#32] := by decide
  obtain ⟨p', hp', -, hspec, hcapture, hgroup⟩ := capture_fix_field hmove hbits none
  obtain ⟨g, hg, -⟩ := Group.exists_ofListBy .stable (List.cons_ne_nil (move.layOut none) [p'])
  have hperm := Group.perm_of_ofListBy hg
  exact ⟨hmove, hbits, p', hp', hspec, (hcapture _ _).mpr ⟨_, _, hvs, rfl, by decide, by decide⟩, g, hg,
    hgroup g (hperm.mem_iff.mpr (by simp)) (hperm.mem_iff.mpr (by simp)) _ _ _ hvs rfl (by decide)⟩

end Spec
end WordPattern
