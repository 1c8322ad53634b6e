/-
Refinement, overlap and equivalence are questions about all words; four masks
answer them, `compared_by_masks`. A compiled pattern sets only bits that it
fixes, so the bits that either of two patterns sets make the word that matches
both, if any word does.
-/
import WordPattern.Proofs.Masks

namespace WordPattern

open Word (size)

/-! ## Sets of bits -/

namespace Word

variable {v w : Word}

theorem and_eq_left_iff : v &&& w = v ↔ ∀ i, v.getBit i = true → w.getBit i = true := by
  constructor
  · intro h i hi
    rw [← h, getBit_and, Bool.and_eq_true] at hi
    exact hi.2
  · intro h
    refine eq_of_getBit_eq fun i => ?_
    rw [getBit_and]
    cases hv : v.getBit i with
    | false => rfl
    | true => rw [h i hv, Bool.and_self]

theorem eq_zero_iff : w = 0 ↔ ∀ i, w.getBit i = false := by
  constructor
  · rintro rfl i
    exact getBit_zero i
  · intro h
    refine eq_of_getBit_eq fun i => ?_
    rw [h, getBit_zero]

end Word

/-! ## Literals -/

namespace Pattern

variable {a b p : Pattern}

theorem Compiled.fixed_of_set (h : p.Compiled) {i : Nat} (hi : p.setMask.getBit i = true) :
    p.fixedMask.getBit i = true := by
  obtain ⟨name, s, h⟩ := h
  obtain ⟨hv, rfl⟩ := Spec.compile_eq_ok_iff.mp h
  exact Spec.getBit_fixedMask_of_setMask hv.fits hi

theorem Compiled.not_set_of_not_fixed (h : p.Compiled) {i : Nat} (hi : p.fixedMask.getBit i = false) :
    p.setMask.getBit i = false := Bool.eq_false_iff.mpr fun hset => by
  rw [h.fixed_of_set hset] at hi
  cases hi

theorem Compiled.lt_of_set (h : p.Compiled) {i : Nat} (hi : p.setMask.getBit i = true) : i < p.length :=
  h.lt_of_fixed (h.fixed_of_set hi)

theorem Compiled.set_and_fixed (h : p.Compiled) : p.setMask &&& p.fixedMask = p.setMask :=
  Word.and_eq_left_iff.mpr fun _ => h.fixed_of_set

/-- The bits that two patterns both fix are set in both or in neither. -/
def Compatible (a b : Pattern) : Prop :=
  ∀ i, a.fixedMask.getBit i = true → b.fixedMask.getBit i = true → a.setMask.getBit i = b.setMask.getBit i

theorem Compatible.symm (h : Compatible a b) : Compatible b a := fun i hb ha => (h i ha hb).symm

theorem compatible_iff_masks :
    Compatible a b ↔ (a.setMask ^^^ b.setMask) &&& a.fixedMask &&& b.fixedMask = 0 := by
  rw [Word.eq_zero_iff]
  refine forall_congr' fun i => ?_
  simp only [Word.getBit_and, Word.getBit_xor]
  cases a.fixedMask.getBit i <;> cases b.fixedMask.getBit i <;> simp

theorem compatible_of_accepts {w : Word} (ha : a.accepts w = true) (hb : b.accepts w = true) :
    Compatible a b := fun i hfa hfb => by
  rw [← accepts_iff_getBit.mp ha i hfa, accepts_iff_getBit.mp hb i hfb]

/-- The bits that either of two compatible patterns sets match the first. -/
theorem Compatible.accepts_or (h : Compatible a b) (hb : b.Compiled) :
    a.accepts (a.setMask ||| b.setMask) = true := by
  refine accepts_iff_getBit.mpr fun i hfa => ?_
  rw [Word.getBit_or]
  cases hsb : b.setMask.getBit i with
  | false => rw [Bool.or_false]
  -- Where `b` sets a bit it fixes it, so `a` sets it too.
  | true => rw [h i hfa (hb.fixed_of_set hsb), hsb, Bool.or_true]

/-! ## The three questions -/

/-- **Refinement**: every literal of `b` is one of `a`. -/
theorem forall_accepts_imp_iff_masks (hb : b.Compiled) :
    (∀ w, a.accepts w = true → b.accepts w = true) ↔
      b.fixedMask &&& a.fixedMask = b.fixedMask ∧ a.setMask &&& b.fixedMask = b.setMask := by
  rw [forall_accepts_imp_iff]
  constructor
  · intro h
    refine ⟨Word.and_eq_left_iff.mpr fun i hi => (h i (Word.lt_size_of_getBit hi) hi).1,
      Word.eq_of_getBit_eq fun i => ?_⟩
    rw [Word.getBit_and]
    cases hf : b.fixedMask.getBit i with
    | true => rw [(h i (Word.lt_size_of_getBit hf) hf).2, Bool.and_true]
    | false => rw [hb.not_set_of_not_fixed hf, Bool.and_false]
  · intro ⟨hfixed, hset⟩ i _ hf
    refine ⟨Word.and_eq_left_iff.mp hfixed i hf, ?_⟩
    rw [← hset, Word.getBit_and, hf, Bool.and_true]

/-- **Overlap**: no bit is a literal 1 of one pattern and a literal 0 of the
other. -/
theorem exists_accepts_both_iff_masks (ha : a.Compiled) (hb : b.Compiled) :
    (∃ w, a.accepts w = true ∧ b.accepts w = true) ↔
      (a.setMask ^^^ b.setMask) &&& a.fixedMask &&& b.fixedMask = 0 := by
  rw [← compatible_iff_masks]
  constructor
  · rintro ⟨w, hwa, hwb⟩
    exact compatible_of_accepts hwa hwb
  · intro h
    refine ⟨a.setMask ||| b.setMask, h.accepts_or hb, ?_⟩
    rw [BitVec.or_comm]
    exact h.symm.accepts_or ha

/-- **Equivalence**: patterns that match the same words have the same literals. -/
theorem accepts_eq_iff_masks (ha : a.Compiled) (hb : b.Compiled) :
    (∀ w, a.accepts w = b.accepts w) ↔ a.fixedMask = b.fixedMask ∧ a.setMask = b.setMask := by
  constructor
  · intro h
    obtain ⟨hba, hset⟩ := (forall_accepts_imp_iff_masks hb).mp fun w hw => (h w).symm.trans hw
    obtain ⟨hab, -⟩ := (forall_accepts_imp_iff_masks ha).mp fun w hw => (h w).trans hw
    have hfixed : a.fixedMask = b.fixedMask := by rw [← hab, BitVec.and_comm, hba]
    exact ⟨hfixed, by rw [← hset, ← hfixed, ha.set_and_fixed]⟩
  · intro ⟨hfixed, hset⟩ w
    simp only [accepts, hfixed, hset]

/-- A field on top, with a pattern name of its own, changes no mask. -/
theorem Compiled.exists_same_masks (h : p.Compiled) (hlength : p.length < size) :
    ∃ q : Pattern, q.Compiled ∧ q.fixedMask = p.fixedMask ∧ q.setMask = p.setMask ∧
      q.length ≠ p.length ∧ q.captures ≠ p.captures ∧ q.name ≠ p.name := by
  obtain ⟨name, s, h⟩ := h
  obtain ⟨hv, rfl⟩ := Spec.compile_eq_ok_iff.mp h
  obtain ⟨name', hname⟩ : ∃ name' : Option String, name' ≠ name := by
    cases name with
    | none => exact ⟨some "", by simp⟩
    | some _ => exact ⟨none, by simp⟩
  have hvalid : Spec.Valid ⟨.field 1 none :: s.parts⟩ := by
    refine ⟨List.cons_ne_nil _ _, ?_, List.forall_mem_cons.mpr ⟨by decide, hv.parts⟩⟩
    simp only [Spec.totalWidth, Spec.widthOf, Part.width]
    exact Nat.one_add_le_iff.mpr hlength
  refine ⟨Spec.layOut name' ⟨.field 1 none :: s.parts⟩, compiled_layOut hvalid, rfl, rfl, ?_, ?_, hname⟩
  · simp [Spec.layOut, Spec.totalWidth, Spec.widthOf, Part.width]
  · exact fun heq => by simpa [Spec.layOut, Spec.captures] using congrArg List.length heq

/-- **Four masks compare two patterns**, whatever their lengths: whether one
refines the other, whether some word matches both, and whether they match the
same words. Those that do may still differ in length, captures and name. -/
theorem compared_by_masks (ha : a.Compiled) (hb : b.Compiled) :
    ((∀ w, a.accepts w = true → b.accepts w = true) ↔
      b.fixedMask &&& a.fixedMask = b.fixedMask ∧ a.setMask &&& b.fixedMask = b.setMask) ∧
    ((∃ w, a.accepts w = true ∧ b.accepts w = true) ↔
      (a.setMask ^^^ b.setMask) &&& a.fixedMask &&& b.fixedMask = 0) ∧
    ((∀ w, a.accepts w = b.accepts w) ↔ a.fixedMask = b.fixedMask ∧ a.setMask = b.setMask) ∧
    (a.length < size → ∃ c : Pattern, c.Compiled ∧ (∀ w, a.accepts w = c.accepts w) ∧
      c.length ≠ a.length ∧ c.captures ≠ a.captures ∧ c.name ≠ a.name) := by
  refine ⟨forall_accepts_imp_iff_masks hb, exists_accepts_both_iff_masks ha hb,
    accepts_eq_iff_masks ha hb, fun hlength => ?_⟩
  obtain ⟨c, hc, hfixed, hset, hdiffers⟩ := ha.exists_same_masks hlength
  exact ⟨c, hc, (accepts_eq_iff_masks ha hc).mpr ⟨hfixed.symm, hset.symm⟩, hdiffers⟩

/-- Of two patterns of different lengths the longer one refines the shorter
one, and a third has no word in common with it. -/
theorem compared_by_masks_longer :
    let long : Spec := ⟨[.literal 1, .literal 0, .literal 1, .field 2 none]⟩
    let short : Spec := ⟨[.literal 1, .field 2 none]⟩
    let other : Spec := ⟨[.field 3 none, .literal 0, .field 2 none]⟩
    ((long.layOut none).Compiled ∧ (short.layOut none).Compiled ∧ (other.layOut none).Compiled) ∧
    (∀ w, (long.layOut none).accepts w = true → (short.layOut none).accepts w = true) ∧
    ¬ (∀ w, (long.layOut none).accepts w = (short.layOut none).accepts w) ∧
    ¬ (∃ w, (long.layOut none).accepts w = true ∧ (other.layOut none).accepts w = true) ∧
    ∃ c : Pattern, c.Compiled ∧ (∀ w, (long.layOut none).accepts w = c.accepts w) ∧ c.length ≠ 5 := by
  intro long short other
  have hlong : (long.layOut none).Compiled := ⟨none, long, by decide⟩
  have hshort : (short.layOut none).Compiled := ⟨none, short, by decide⟩
  have hother : (other.layOut none).Compiled := ⟨none, other, by decide⟩
  obtain ⟨hrefines, -, hsame, hshared⟩ := compared_by_masks hlong hshort
  obtain ⟨-, hcommon, -⟩ := compared_by_masks hlong hother
  obtain ⟨c, hc, haccepts, hlength, -⟩ := hshared (by decide)
  refine ⟨⟨hlong, hshort, hother⟩, hrefines.mpr (by decide), fun h => ?_, fun h => ?_,
    c, hc, haccepts, hlength⟩
  · exact absurd (hsame.mp h) (by decide)
  · exact absurd (hcommon.mp h) (by decide)

end Pattern
end WordPattern
