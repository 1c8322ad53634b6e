/-
How literals and fields share out the bits of a pattern: each bit below its
length is a literal's or lies in exactly one field, and nothing reaches above.
`countP_covers`, which counts the captures over one bit, carries it.
-/
import Mathlib.Algebra.Ring.Nat
import Mathlib.Data.List.Forall2
import WordPattern.Proofs.Masks
import WordPattern.Proofs.Number

namespace WordPattern

open Word (size)

theorem Capture.covers_above {below width : Nat} (name : Option String) (hw : 0 < width) (i : Nat) :
    Capture.covers ⟨name, below + width - 1, width⟩ i = decide (below ≤ i ∧ i < below + width) := by
  simp only [Capture.covers, ← Bool.decide_and, decide_eq_decide]
  omega

namespace Spec

variable {ps : List Part}

/-- `c` is the capture of the field at position `j` of `ps`: it has that
field's name and width, and its top bit is the topmost of what the field and
the parts after it cover. -/
def CaptureAt (ps : List Part) (c : Capture) (j : Nat) : Prop :=
  ∃ width name, ps[j]? = some (.field width name) ∧ c.name = name ∧ c.width = width.toNat ∧
    1 ≤ c.width ∧ c.leftBit + 1 = ((ps.drop j).map Part.width).sum

/-- `p` shares out its bits between the literals and fields of `ps`. -/
structure Tiles (ps : List Part) (p : Pattern) : Prop where
  length_pos : 1 ≤ p.length
  length_le : p.length ≤ size
  length_eq : p.length = (ps.map Part.width).sum
  /-- What must be set is fixed. -/
  set_fixed : ∀ i, p.setMask.getBit i = true → p.fixedMask.getBit i = true
  fixed_lt : p.fixedMask.toNat < 2 ^ p.length
  /-- A bit is a literal's and in no field, or no literal's and in one field. -/
  covered : ∀ i < p.length, p.captures.countP (·.covers i) = if p.fixedMask.getBit i then 0 else 1
  captures_lt : ∀ c ∈ p.captures, c.leftBit < p.length
  /-- There is one capture for each field, in the order of the fields. -/
  captures_at : List.Forall₂ (CaptureAt ps) p.captures (ps.findIdxs Part.isField)
  /-- A capture ends above where the next one starts. -/
  descending : p.captures.Pairwise fun a b => b.leftBit < a.leftBit + 1 - a.width
  specificity_eq : p.specificity = p.fixedMask.ones.card
  length_split : p.length = p.specificity + (p.captures.map Capture.width).sum

/-! ## Widths -/

theorem widthOf_eq_sum (ps : List Part) : widthOf ps = (ps.map Part.width).sum := by
  induction ps with
  | nil => rfl
  | cons part rest ih => rw [widthOf, ih, List.map_cons, List.sum_cons]

theorem widthOf_pos (hne : ps ≠ []) (hv : ∀ part ∈ ps, part.Valid) : 0 < widthOf ps := by
  cases ps with
  | nil => exact absurd rfl hne
  | cons part rest =>
    have := (hv part List.mem_cons_self).width_pos
    rw [widthOf]
    omega

theorem widthOf_eq_literals_add_fields (ps : List Part) :
    widthOf ps = ps.countP (fun part => !part.isField) + ((captures ps).map Capture.width).sum := by
  induction ps with
  | nil => rfl
  | cons part rest ih =>
    cases part with
    | literal bit =>
      rw [widthOf, ih, captures, Part.width, List.countP_cons_of_pos (by rfl)]
      omega
    | field width name =>
      rw [widthOf, ih, captures, Part.width, List.countP_cons_of_neg (by simp [Part.isField]),
        List.map_cons, List.sum_cons]
      simp only
      omega

/-! ## Captures -/

theorem leftBit_lt_of_mem_captures (hv : ∀ part ∈ ps, part.Valid) :
    ∀ c ∈ captures ps, c.leftBit < widthOf ps := by
  induction ps with
  | nil => simp [captures]
  | cons part rest ih =>
    rw [List.forall_mem_cons] at hv
    have hrest := ih hv.2
    have hw := hv.1.width_pos
    intro c hc
    rw [widthOf]
    cases part with
    | literal bit =>
      have := hrest c hc
      omega
    | field width name =>
      simp only [Part.width] at hw ⊢
      rcases List.mem_cons.mp hc with rfl | hc
      · simp only
        omega
      · have := hrest c hc
        omega

theorem width_pos_of_mem_captures (hv : ∀ part ∈ ps, part.Valid) : ∀ c ∈ captures ps, 1 ≤ c.width := by
  induction ps with
  | nil => simp [captures]
  | cons part rest ih =>
    rw [List.forall_mem_cons] at hv
    cases part with
    | literal bit => exact ih hv.2
    | field width name => exact List.forall_mem_cons.mpr ⟨hv.1.width_pos, ih hv.2⟩

/-- The captures of the parts after a field lie below it. -/
theorem captures_descending (hv : ∀ part ∈ ps, part.Valid) :
    (captures ps).Pairwise fun a b => b.leftBit < a.leftBit + 1 - a.width := by
  induction ps with
  | nil => exact .nil
  | cons part rest ih =>
    rw [List.forall_mem_cons] at hv
    cases part with
    | literal bit => exact ih hv.2
    | field width name =>
      refine .cons (fun b hb => ?_) (ih hv.2)
      have hlt := leftBit_lt_of_mem_captures hv.2 b hb
      have hw : 0 < width.toNat := hv.1.width_pos
      simp only
      omega

theorem captureAt_captures (hv : ∀ part ∈ ps, part.Valid) :
    List.Forall₂ (CaptureAt ps) (captures ps) (ps.findIdxs Part.isField) := by
  induction ps with
  | nil => exact .nil
  | cons part rest ih =>
    rw [List.forall_mem_cons] at hv
    -- Behind another part, each position moves up by one.
    have hrest : List.Forall₂ (CaptureAt (part :: rest)) (captures rest) (rest.findIdxs Part.isField 1) := by
      rw [List.findIdxs_start, List.forall₂_map_right_iff]
      exact ih hv.2
    rw [List.findIdxs_cons]
    cases part with
    | literal bit => exact hrest
    | field width name =>
      have hw : 0 < width.toNat := hv.1.width_pos
      refine .cons ⟨width, name, rfl, rfl, rfl, hw, ?_⟩ hrest
      rw [List.drop_zero, ← widthOf_eq_sum, widthOf, Part.width]
      simp only
      omega

/-! ## The bits -/

theorem toNat_fixedMask_lt (h : widthOf ps ≤ size) : (fixedMask ps).toNat < 2 ^ widthOf ps :=
  Word.toNat_lt_of_getBit fun _ hi => lt_of_getBit_fixedMask h hi

/-- **Every bit has one owner.** A bit that the parts cover lies in one
capture, unless it is a literal's; then it lies in none. -/
theorem countP_covers (hv : ∀ part ∈ ps, part.Valid) (h : widthOf ps ≤ size) (i : Nat) :
    (captures ps).countP (·.covers i) =
      if i < widthOf ps ∧ (fixedMask ps).getBit i = false then 1 else 0 := by
  induction ps with
  | nil => rfl
  | cons part rest ih =>
    rw [List.forall_mem_cons] at hv
    have hrest := widthOf_le_of_cons h
    -- The bits of the first part lie above all others.
    have habove : widthOf rest ≤ i → (fixedMask rest).getBit i = false := getBit_fixedMask_of_le hrest
    cases part with
    | literal bit =>
      rw [captures, ih hv.2 hrest, getBit_fixedMask_literal h, widthOf, Part.width]
      by_cases hi : i = widthOf rest
      · simp [hi]
      · have hlt : i < 1 + widthOf rest ↔ i < widthOf rest := by omega
        simp [hi, hlt]
    | field width name =>
      have hw : 0 < width.toNat := hv.1.width_pos
      rw [captures, List.countP_cons, ih hv.2 hrest, Capture.covers_above name hw, fixedMask, widthOf,
        Part.width]
      rcases Nat.lt_or_ge i (widthOf rest) with hi | hi
      · have hlt : i < width.toNat + widthOf rest := by omega
        simp [hi, hlt, Nat.not_le.mpr hi]
      · simp [habove hi, hi, Nat.not_lt.mpr hi, Nat.add_comm width.toNat]

/-- **A compiled pattern is tiled by its parts**: each bit below its length is
a literal's or exactly one field's, the captures are the fields' in order from
the top down, and the specificity counts the literals' bits. -/
theorem tiles_of_compile {name : Option String} {s : Spec} {p : Pattern}
    (h : s.compile name = .ok p) : Tiles s.parts p := by
  obtain ⟨hv, rfl⟩ := compile_eq_ok_iff.mp h
  have hfit : widthOf s.parts ≤ size := hv.fits
  have hspec := specificity_layOut name hfit
  refine {
    length_pos := widthOf_pos hv.nonempty hv.parts
    length_le := hfit
    length_eq := widthOf_eq_sum s.parts
    set_fixed := fun i hi => getBit_fixedMask_of_setMask hfit hi
    fixed_lt := toNat_fixedMask_lt hfit
    covered := fun i hi => ?_
    captures_lt := leftBit_lt_of_mem_captures hv.parts
    captures_at := captureAt_captures hv.parts
    descending := captures_descending hv.parts
    specificity_eq := hspec
    length_split := ?_ }
  · have hlt : i < widthOf s.parts := hi
    simp only [layOut, countP_covers hv.parts hfit, hlt, true_and]
    by_cases hf : (fixedMask s.parts).getBit i = true <;> simp [hf]
  · rw [hspec]
    simp only [layOut]
    rw [card_ones_fixedMask hfit]
    exact widthOf_eq_literals_add_fields s.parts

/-- A full word, with neighbouring fields that share a name. -/
theorem tiles_full_word :
    let parts := [Part.literal 1, .field 3 (some "r"), .field 2 (some "r"), .literal 0, .field 25 none]
    Spec.compile none ⟨parts⟩ = .ok ⟨none, 32, 0x80000000#32, 0x82000000#32, 2,
        [⟨some "r", 30, 3⟩, ⟨some "r", 27, 2⟩, ⟨none, 24, 25⟩]⟩ ∧
      Tiles parts ⟨none, 32, 0x80000000#32, 0x82000000#32, 2,
        [⟨some "r", 30, 3⟩, ⟨some "r", 27, 2⟩, ⟨none, 24, 25⟩]⟩ := by
  intro parts
  have h : Spec.compile none ⟨parts⟩ = .ok ⟨none, 32, 0x80000000#32, 0x82000000#32, 2,
      [⟨some "r", 30, 3⟩, ⟨some "r", 27, 2⟩, ⟨none, 24, 25⟩]⟩ := by decide
  exact ⟨h, tiles_of_compile h⟩

end Spec
end WordPattern
