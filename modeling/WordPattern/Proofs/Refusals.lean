/-
How a text can fail to be a pattern. Reading makes no empty list of parts, no
literal but 0 and 1 and no empty field, so a text that is a spec can only be too
long, `Pattern.ofText_eq`.
-/
import WordPattern.Definition
import WordPattern.Proofs.Meaning

namespace WordPattern

open Word (size)

namespace Spec

variable {text : String} {spec : Spec}

/-- **What has been read can only be too long.** -/
theorem fault?_of_ofText (h : ofText text = .ok spec) :
    spec.fault? = if size < (bitChars text.toList).length then
      some (.tooLong (bitChars text.toList).length size) else none := by
  have hreads := reads_of_ofText h
  have hne : spec.parts ≠ [] := fun hnil =>
    (exists_ofText_iff.mp ⟨spec, h⟩).2 (hreads.eq_nil_iff.mpr hnil)
  have hwidth : spec.totalWidth = (bitChars text.toList).length := hreads.widthOf_eq
  rw [fault?, if_neg hne, hwidth, firstFault?_eq_none_iff.mpr hreads.valid]

/-- Of a text that is legal but for the widths of its fields, these decide. -/
theorem exists_ofText_iff_count_le (hlegal : ∀ ch ∈ text.toList, Legal ch)
    (hsep : ¬ ['_', '_'] <:+: text.toList)
    (hone : ∀ c, c.isAlpha = true → Contiguous (bitChars text.toList) c) (hne : bitChars text.toList ≠ []) :
    (∃ spec, ofText text = .ok spec) ↔ ∀ c, c.isAlpha = true → (bitChars text.toList).count c ≤ size := by
  rw [exists_ofText_iff, and_iff_left hne]
  exact ⟨fun h => h.blocks.narrow, fun h => ⟨hlegal, hsep, hone, h⟩⟩

end Spec

open Spec

namespace Pattern

variable {name : Option String} {text : String} {e : Error} {cause : TextError}

theorem ofText_eq (name : Option String) (text : String) :
    Pattern.ofText name text =
      match Spec.ofText text with
      | .error cause => .error (.text text cause)
      | .ok spec =>
        if size < (bitChars text.toList).length then
          .error (.compile text (.tooLong (bitChars text.toList).length size))
        else .ok (spec.layOut name) := by
  rw [Pattern.ofText]
  cases h : Spec.ofText text with
  | error cause => rfl
  | ok spec =>
    simp only [compile_eq, fault?_of_ofText h]
    by_cases hlong : size < (bitChars text.toList).length <;> simp only [hlong, ↓reduceIte]

theorem ofText_eq_text_iff :
    Pattern.ofText name text = .error (.text text cause) ↔ Spec.ofText text = .error cause := by
  rw [ofText_eq]
  split
  · next h => simp [h]
  · next h => split <;> simp [h]

theorem ofText_eq_tooLong_iff :
    Pattern.ofText name text = .error (.compile text (.tooLong (bitChars text.toList).length size)) ↔
      (∃ spec, Spec.ofText text = .ok spec) ∧ size < (bitChars text.toList).length := by
  rw [ofText_eq]
  split
  · next h => simp [h]
  · next spec h =>
    split
    · next hlong => exact iff_of_true rfl ⟨⟨spec, h⟩, hlong⟩
    · next hlong => exact iff_of_false (by simp) fun h => hlong h.2

theorem ofText_error_cases (h : Pattern.ofText name text = .error e) :
    (∃ cause, e = .text text cause) ∨ e = .compile text (.tooLong (bitChars text.toList).length size) := by
  rw [ofText_eq] at h
  split at h
  · next cause _ => exact .inl ⟨cause, (Except.error.inj h).symm⟩
  split at h
  · exact .inr (Except.error.inj h).symm
  · cases h

theorem exists_ofText_eq_text_iff :
    (∃ cause, Pattern.ofText name text = .error (.text text cause)) ↔
      ¬ ∃ spec, Spec.ofText text = .ok spec := by
  simp only [ofText_eq_text_iff]
  cases Spec.ofText text <;> simp

/-- **The ways a text can be refused.** Let `n` be the number of its characters
other than separators. It is no spec exactly when reading it fails, too long
exactly when it is a spec and `n` is more than a word has, and refused for
nothing else. Between the two decides a letter that comes too often. -/
theorem ofText_refusals (name : Option String) (text : String) :
    let s := bitChars text.toList
    let n := s.length
    (∀ cause, Pattern.ofText name text = .error (.text text cause) ↔ Spec.ofText text = .error cause) ∧
    (Pattern.ofText name text = .error (.compile text (.tooLong n size)) ↔
      (∃ spec, Spec.ofText text = .ok spec) ∧ size < n) ∧
    (∀ e, Pattern.ofText name text = .error e →
      (∃ cause, e = .text text cause) ∨ e = .compile text (.tooLong n size)) ∧
    ((∀ ch ∈ text.toList, Legal ch) → ¬ ['_', '_'] <:+: text.toList →
      (∀ c, c.isAlpha = true → Contiguous s c) → size < n →
      ((∃ cause, Pattern.ofText name text = .error (.text text cause)) ↔
        ∃ c, c.isAlpha = true ∧ size < s.count c) ∧
      (Pattern.ofText name text = .error (.compile text (.tooLong n size)) ↔
        ¬ ∃ c, c.isAlpha = true ∧ size < s.count c)) ∧
    PatternDef.toPattern ⟨name, text⟩ = Pattern.ofText name text := by
  intro s n
  refine ⟨fun cause => ofText_eq_text_iff, ofText_eq_tooLong_iff, fun e => ofText_error_cases,
    fun hlegal hsep hone hlong => ?_, rfl⟩
  have hne : s ≠ [] := List.length_pos_iff.mp (Nat.zero_lt_of_lt hlong)
  have hread : (∃ spec, Spec.ofText text = .ok spec) ↔ ¬ ∃ c, c.isAlpha = true ∧ size < s.count c := by
    rw [exists_ofText_iff_count_le hlegal hsep hone hne]
    simp only [not_exists, not_and, Nat.not_lt]
    rfl
  rw [exists_ofText_eq_text_iff, ofText_eq_tooLong_iff, and_iff_left hlong, hread, not_not]
  exact ⟨Iff.rfl, Iff.rfl⟩

/-- One letter too many, and one bit too many. -/
example :
    let wide := String.ofList (List.replicate 33 'a')
    let long := String.ofList (List.replicate 32 'a' ++ ['1'])
    Pattern.ofText none wide = .error (.text wide (.fieldTooWide 'a' 32 32)) ∧
    Pattern.ofText none long = .error (.compile long (.tooLong 33 32)) := by decide

end Pattern
end WordPattern
