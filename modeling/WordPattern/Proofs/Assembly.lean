/-
Words assembled from field values: `assemble` writes a spec from the top down,
and capturing undoes just this, `capture_eq_some_iff_assemble`.
-/
import Mathlib.Data.List.Forall2
import Mathlib.Tactic.Ring
import WordPattern.Proofs.Layout
import WordPattern.Proofs.Number

namespace WordPattern
namespace Spec

open Word (size)

/-- The widths of the fields, in order. -/
def fieldWidths : List Part → List Nat
  | [] => []
  | .literal _ :: rest => fieldWidths rest
  | .field width _ :: rest => width.toNat :: fieldWidths rest

/-- One value for each field, small enough for the field's bits. -/
def Fit (ps : List Part) (vs : List Word) : Prop :=
  List.Forall₂ (fun width v => v.toNat < 2 ^ width) (fieldWidths ps) vs

/-- The number that the literals, and values for the fields, write below the
digits of `acc`. A missing value counts as zero. -/
def assemble (acc : Nat) : List Part → List Word → Nat
  | [], _ => acc
  | .literal bit :: rest, vs => assemble (2 * acc + bit.toNat) rest vs
  | .field width _ :: rest, vs => assemble (acc * 2 ^ width.toNat + (vs.headD 0).toNat) rest vs.tail

variable {ps : List Part} {vs : List Word}

theorem assemble_eq (acc : Nat) (ps : List Part) (vs : List Word) :
    assemble acc ps vs = acc * 2 ^ widthOf ps + assemble 0 ps vs := by
  induction ps generalizing acc vs with
  | nil => simp [assemble, widthOf]
  | cons part rest ih =>
    cases part with
    | literal bit =>
      simp only [assemble, widthOf, Part.width]
      rw [ih, ih (2 * 0 + bit.toNat)]
      ring
    | field width name =>
      simp only [assemble, widthOf, Part.width]
      rw [ih, ih (0 * 2 ^ width.toNat + _)]
      ring

theorem assemble_literal (bit : UInt8) (ps : List Part) (vs : List Word) :
    assemble 0 (.literal bit :: ps) vs = bit.toNat * 2 ^ widthOf ps + assemble 0 ps vs := by
  rw [assemble, assemble_eq, Nat.mul_zero, Nat.zero_add]

theorem assemble_field (width : UInt32) (name : Option String) (ps : List Part) (v : Word)
    (vs : List Word) :
    assemble 0 (.field width name :: ps) (v :: vs) = v.toNat * 2 ^ widthOf ps + assemble 0 ps vs := by
  rw [assemble, assemble_eq, Nat.zero_mul, Nat.zero_add, List.headD_cons, List.tail_cons]

theorem assemble_lt (hv : ∀ part ∈ ps, part.Valid) (h : Fit ps vs) :
    assemble 0 ps vs < 2 ^ widthOf ps := by
  induction ps generalizing vs with
  | nil => simp [assemble, widthOf]
  | cons part rest ih =>
    rw [List.forall_mem_cons] at hv
    cases part with
    | literal bit =>
      have hb : bit.toNat < 2 ^ 1 := by rcases hv.1 with rfl | rfl <;> decide
      rw [assemble_literal, widthOf]
      exact Word.mul_two_pow_add_lt hb (ih hv.2 h)
    | field width name =>
      obtain ⟨v, vs, hlt, hrest, rfl⟩ := List.forall₂_cons_left_iff.mp h
      rw [assemble_field, widthOf]
      exact Word.mul_two_pow_add_lt hlt (ih hv.2 hrest)

/-! ## Reading the bits back -/

theorem getBit_eq_iff_digit {bit : UInt8} (h : bit = 0 ∨ bit = 1) (w : Word) (below : Nat) :
    w.getBit below = decide (bit = 1) ↔ w.toNat / 2 ^ below % 2 ^ 1 = bit.toNat := by
  rw [Word.getBit_eq_testBit, Nat.pow_one, ← Nat.toNat_testBit]
  rcases h with rfl | rfl <;> cases w.toNat.testBit below <;> decide

theorem extract_eq_iff_digit {below width : Nat} (hw : 0 < width) (hfit : width + below ≤ size)
    (w v : Word) :
    w.extract (below + width - 1) width = v ↔ w.toNat / 2 ^ below % 2 ^ width = v.toNat := by
  rw [← BitVec.toNat_inj, Word.toNat_extract_above w hw hfit]

/-- **Reading parts back from a word inverts assembling them.** Each part is
one digit of the word's number, above the digits of the parts after it. -/
theorem values_iff_assemble (hv : ∀ part ∈ ps, part.Valid) (hfit : widthOf ps ≤ size) (w : Word)
    (vs : List Word) :
    LiteralsIn w ps ∧ (captures ps).map (·.extract w) = vs ↔
      Fit ps vs ∧ w.toNat % 2 ^ widthOf ps = assemble 0 ps vs := by
  induction ps generalizing vs with
  | nil =>
    simp only [LiteralsIn, captures, List.map_nil, Fit, fieldWidths, widthOf, assemble, true_and,
      List.forall₂_nil_left_iff, Nat.pow_zero, Nat.mod_one, and_true]
    exact eq_comm
  | cons part rest ih =>
    rw [List.forall_mem_cons] at hv
    cases part with
    | literal bit =>
      have hrest : widthOf rest ≤ size := Nat.le_of_lt (widthOf_lt_of_literal hfit)
      simp only [LiteralsIn, captures, and_assoc, ih hv.2 hrest, getBit_eq_iff_digit hv.1]
      rw [assemble_literal, widthOf, Part.width]
      refine ⟨fun h => ?_, fun h => ?_⟩
      · obtain ⟨hbit, hvs, hmod⟩ := h
        exact ⟨hvs, (Word.mod_two_pow_add_eq_iff (assemble_lt hv.2 hvs)).mpr ⟨hbit, hmod⟩⟩
      · obtain ⟨hvs, hmod⟩ := h
        obtain ⟨hbit, hmod⟩ := (Word.mod_two_pow_add_eq_iff (assemble_lt hv.2 hvs)).mp hmod
        exact ⟨hbit, hvs, hmod⟩
    | field width name =>
      simp only [widthOf, Part.width] at hfit
      have hw : 0 < width.toNat := hv.1.width_pos
      simp only [LiteralsIn, captures, List.map_cons, Capture.extract]
      refine ⟨fun h => ?_, fun h => ?_⟩
      · obtain ⟨hlit, rfl⟩ := h
        obtain ⟨hvs, hmod⟩ := (ih hv.2 (by omega) _).mp ⟨hlit, rfl⟩
        have htop := (extract_eq_iff_digit hw hfit w _).mp rfl
        refine ⟨.cons ?_ hvs, ?_⟩
        · rw [← htop]
          exact Nat.mod_lt _ (Nat.two_pow_pos _)
        · rw [assemble_field, widthOf]
          exact (Word.mod_two_pow_add_eq_iff (assemble_lt hv.2 hvs)).mpr ⟨htop, hmod⟩
      · obtain ⟨hvs, hmod⟩ := h
        obtain ⟨v, vs, hlt, hrest, rfl⟩ := List.forall₂_cons_left_iff.mp hvs
        rw [assemble_field, widthOf] at hmod
        obtain ⟨htop, hmod⟩ := (Word.mod_two_pow_add_eq_iff (assemble_lt hv.2 hrest)).mp hmod
        obtain ⟨hlit, hvals⟩ := (ih hv.2 (by omega) _).mpr ⟨hrest, hmod⟩
        exact ⟨hlit, List.cons_eq_cons.mpr ⟨(extract_eq_iff_digit hw hfit w v).mpr htop, hvals⟩⟩

/-- **Capturing is the inverse of assembling.** A word gives up just the values
that fit the fields and assemble to its lowest `length` bits; the bits above are
never looked at. -/
theorem capture_eq_some_iff_assemble {name : Option String} {s : Spec} {p : Pattern}
    (h : s.compile name = .ok p) :
    (∀ (w : Word) (vs : List Word),
      p.capture w = some vs ↔ Fit s.parts vs ∧ w.toNat % 2 ^ p.length = assemble 0 s.parts vs) ∧
    (∀ w : Word, p.accepts w = true ↔
      ∃ vs, Fit s.parts vs ∧ w.toNat % 2 ^ p.length = assemble 0 s.parts vs) ∧
    (∀ (w : Word) (vs vs' : List Word),
      Fit s.parts vs ∧ w.toNat % 2 ^ p.length = assemble 0 s.parts vs →
      Fit s.parts vs' ∧ w.toNat % 2 ^ p.length = assemble 0 s.parts vs' → vs = vs') ∧
    ∀ w w' : Word, w.toNat % 2 ^ p.length = w'.toNat % 2 ^ p.length →
      p.accepts w = p.accepts w' ∧ p.capture w = p.capture w' := by
  obtain ⟨hv, rfl⟩ := compile_eq_ok_iff.mp h
  have hcap : ∀ (w : Word) (vs : List Word), (s.layOut name).capture w = some vs ↔
      Fit s.parts vs ∧ w.toNat % 2 ^ s.totalWidth = assemble 0 s.parts vs := fun w vs => by
    rw [Pattern.capture_eq_some_iff, accepts_layOut hv.fits]
    exact values_iff_assemble hv.parts hv.fits w vs
  have hacc : ∀ w : Word, (s.layOut name).accepts w = true ↔
      ∃ vs, Fit s.parts vs ∧ w.toNat % 2 ^ s.totalWidth = assemble 0 s.parts vs := fun w => by
    rw [Pattern.accepts_iff_capture]
    exact exists_congr (hcap w)
  refine ⟨hcap, hacc, fun w vs vs' hvs hvs' => ?_, fun w w' hw => ⟨?_, ?_⟩⟩
  · exact Option.some.inj (((hcap w vs).mpr hvs).symm.trans ((hcap w vs').mpr hvs'))
  · rw [Bool.eq_iff_iff, hacc, hacc, show w.toNat % 2 ^ s.totalWidth = _ from hw]
    rfl
  · apply Option.ext
    intro vs
    rw [hcap, hcap, show w.toNat % 2 ^ s.totalWidth = _ from hw]
    rfl

/-- A full word: the topmost bit is a literal, and the field holds the rest. -/
theorem capture_full_word :
    Spec.compile none ⟨[.literal 1, .field 31 none]⟩ =
        .ok ⟨none, 32, 0x80000000#32, 0x80000000#32, 1, [⟨none, 30, 31⟩]⟩ ∧
      Pattern.capture ⟨none, 32, 0x80000000#32, 0x80000000#32, 1, [⟨none, 30, 31⟩]⟩ 0xFFFFFFFF#32 =
        some [0x7FFFFFFF#32] := by
  have h : Spec.compile none ⟨[.literal 1, .field 31 none]⟩ =
      .ok ⟨none, 32, 0x80000000#32, 0x80000000#32, 1, [⟨none, 30, 31⟩]⟩ := by decide
  exact ⟨h, ((capture_eq_some_iff_assemble h).1 _ _).mpr
    ⟨.cons (by decide) .nil, by decide⟩⟩

end Spec
end WordPattern
