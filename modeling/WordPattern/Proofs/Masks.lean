/-
What the masks of a pattern say about the words it matches. `a` refines `b` when
`b` fixes only bits that `a` fixes too, and to the same values,
`forall_accepts_imp_iff`; so a proper refinement is more specific,
`specificity_lt_of_refines`.
-/
import Mathlib.Data.Finset.Card
import WordPattern.Proofs.Layout

namespace WordPattern

open Word (size)

/-! ## Set bits -/

namespace Word

/-- The positions of the set bits. -/
def ones (w : Word) : Finset Nat := (Finset.range size).filter fun i => w.getBit i = true

theorem lt_size_of_getBit {w : Word} {i : Nat} (h : w.getBit i = true) : i < size := by
  rw [getBit_eq_getLsbD] at h
  exact BitVec.lt_of_getLsbD h

@[simp] theorem mem_ones {w : Word} {i : Nat} : i ∈ w.ones ↔ w.getBit i = true := by
  simp only [ones, Finset.mem_filter, Finset.mem_range, and_iff_right_iff_imp]
  exact lt_size_of_getBit

theorem ones_setBit {n : Nat} (w : Word) (hn : n < size) : (w.setBit n).ones = insert n w.ones := by
  ext i
  rw [mem_ones, getBit_setBit w hn, Finset.mem_insert, mem_ones, Bool.or_eq_true, decide_eq_true_eq,
    or_comm]

/-- `w` with bit `n` turned over. -/
def flipBit (w : Word) (n : Nat) : Word := w ^^^ BitVec.twoPow 32 n

theorem getBit_flipBit {n i : Nat} (w : Word) (hn : n < size) :
    (w.flipBit n).getBit i = (w.getBit i ^^ decide (n = i)) := by
  simp only [getBit_eq_getLsbD, flipBit, BitVec.getLsbD_xor, BitVec.getLsbD_twoPow]
  rw [decide_eq_true (show n < 32 from hn), Bool.true_and]

end Word

/-! ## Specificity -/

namespace Spec

variable {ps : List Part}

theorem card_ones_fixedMask (h : widthOf ps ≤ size) :
    (fixedMask ps).ones.card = ps.countP fun part => !part.isField := by
  induction ps with
  | nil =>
    rw [List.countP_nil, Finset.card_eq_zero, Finset.eq_empty_iff_forall_notMem]
    intro i hi
    rw [Word.mem_ones, fixedMask, Word.getBit_zero] at hi
    cases hi
  | cons part rest ih =>
    cases part with
    | literal bit =>
      have hrest := widthOf_lt_of_literal h
      have hnew : widthOf rest ∉ (fixedMask rest).ones := by
        rw [Word.mem_ones, getBit_fixedMask_of_le (Nat.le_of_lt hrest) (Nat.le_refl _)]
        exact Bool.false_ne_true
      rw [fixedMask, Word.ones_setBit _ hrest, Finset.card_insert_of_notMem hnew,
        ih (Nat.le_of_lt hrest), List.countP_cons_of_pos (by rfl)]
    | field width name =>
      rw [fixedMask, ih (widthOf_le_of_cons h), List.countP_cons_of_neg (by simp [Part.isField])]

/-- The number of parts that are no fields counts the fixed bits. -/
theorem specificity_layOut {s : Spec} (name : Option String) (h : s.totalWidth ≤ size) :
    (s.layOut name).specificity = (s.layOut name).fixedMask.ones.card := by
  have hcount := List.length_eq_countP_add_countP Part.isField (l := s.parts)
  simp only [layOut, length_captures]
  rw [card_ones_fixedMask h]
  simp only [Bool.not_eq_true, Bool.decide_eq_false] at hcount
  omega

end Spec

/-! ## Comparing patterns -/

namespace Pattern

/-- What some spec compiles to. -/
def Compiled (p : Pattern) : Prop := ∃ name s, Spec.compile name s = .ok p

theorem compiled_layOut {name : Option String} {s : Spec} (h : s.Valid) : (s.layOut name).Compiled :=
  ⟨name, s, Spec.compile_eq_ok_iff.mpr ⟨h, rfl⟩⟩

theorem Compiled.specificity_eq {p : Pattern} (h : p.Compiled) :
    p.specificity = p.fixedMask.ones.card := by
  obtain ⟨name, s, h⟩ := h
  obtain ⟨hv, rfl⟩ := Spec.compile_eq_ok_iff.mp h
  exact Spec.specificity_layOut name hv.fits

theorem Compiled.length_le {p : Pattern} (h : p.Compiled) : p.length ≤ size := by
  obtain ⟨name, s, h⟩ := h
  obtain ⟨hv, rfl⟩ := Spec.compile_eq_ok_iff.mp h
  exact hv.fits

theorem Compiled.lt_of_fixed {p : Pattern} (h : p.Compiled) {i : Nat} (hi : p.fixedMask.getBit i = true) :
    i < p.length := by
  obtain ⟨name, s, h⟩ := h
  obtain ⟨hv, rfl⟩ := Spec.compile_eq_ok_iff.mp h
  exact Spec.lt_of_getBit_fixedMask hv.fits hi

/-- No literal lies above the word, so all positions may be asked for. -/
theorem accepts_iff_getBit {p : Pattern} {w : Word} :
    p.accepts w = true ↔ ∀ i, p.fixedMask.getBit i = true → w.getBit i = p.setMask.getBit i := by
  rw [accepts_iff]
  exact ⟨fun h i hf => h i (Word.lt_size_of_getBit hf) hf, fun h i _ hf => h i hf⟩

/-- A pattern's literals match themselves. -/
theorem accepts_setMask (p : Pattern) : p.accepts p.setMask = true :=
  accepts_iff.mpr fun _ _ _ => rfl

/-- So they do with a bit turned over that is no literal's. -/
theorem accepts_flipBit {p : Pattern} {i : Nat} (hi : i < size) (hf : p.fixedMask.getBit i = false) :
    p.accepts (p.setMask.flipBit i) = true := by
  refine accepts_iff.mpr fun j _ hj => ?_
  have hne : i ≠ j := by
    intro h
    rw [← h, hf] at hj
    cases hj
  rw [Word.getBit_flipBit _ hi, decide_eq_false hne, Bool.xor_false]

/-- **One pattern refines another** exactly when the other's literals are
among its own. -/
theorem forall_accepts_imp_iff {a b : Pattern} :
    (∀ w, a.accepts w = true → b.accepts w = true) ↔
      ∀ i < size, b.fixedMask.getBit i = true →
        a.fixedMask.getBit i = true ∧ a.setMask.getBit i = b.setMask.getBit i := by
  constructor
  · intro h i hi hb
    have hset := accepts_iff.mp (h _ a.accepts_setMask) i hi hb
    refine ⟨?_, hset⟩
    -- Were the bit free in `a`, `a` would match both of its values and `b` only one.
    cases hf : a.fixedMask.getBit i with
    | true => rfl
    | false =>
      have hflip := accepts_iff.mp (h _ (accepts_flipBit hi hf)) i hi hb
      rw [Word.getBit_flipBit _ hi, hset] at hflip
      simp at hflip
  · intro h w hw
    rw [accepts_iff] at hw ⊢
    intro i hi hb
    obtain ⟨ha, hset⟩ := h i hi hb
    rw [hw i hi ha, hset]

/-- **A strict refinement is more specific.** -/
theorem specificity_lt_of_refines {a b : Pattern} (ha : a.Compiled) (hb : b.Compiled)
    (hab : ∀ w, a.accepts w = true → b.accepts w = true)
    (hne : ∃ w, b.accepts w = true ∧ a.accepts w = false) : b.specificity < a.specificity := by
  have hbits := forall_accepts_imp_iff.mp hab
  obtain ⟨w, hbw, haw⟩ := hne
  rw [ha.specificity_eq, hb.specificity_eq]
  apply Finset.card_lt_card
  refine Finset.ssubset_def.mpr ⟨fun i hi => ?_, fun hsub => ?_⟩
  · rw [Word.mem_ones] at hi ⊢
    exact (hbits i (Word.lt_size_of_getBit hi) hi).1
  -- With the same fixed bits the two would match the same words.
  · have hback : a.accepts w = true := by
      refine accepts_iff.mpr fun i hi hfix => ?_
      have hfix' := Word.mem_ones.mp (hsub (Word.mem_ones.mpr hfix))
      rw [(hbits i hi hfix').2]
      exact accepts_iff.mp hbw i hi hfix'
    rw [hback] at haw
    cases haw

end Pattern
end WordPattern
