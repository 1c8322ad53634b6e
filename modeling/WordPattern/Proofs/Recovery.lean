/-
A pattern tells which spec it was compiled from, read from the top down: the
topmost bit is fixed exactly when the topmost part is a literal, and then set as
that is; if it is not fixed, the first capture is that part.
-/
import WordPattern.Proofs.Layout

namespace WordPattern

open Word (size)

namespace Word

variable {v w : Word}

/-- A bit that two words leave free can be added to both and told from them
again. -/
theorem eq_of_getBit_or_eq {x y : Bool} {n : Nat} (hv : v.getBit n = false) (hw : w.getBit n = false)
    (h : ∀ i, (v.getBit i || x && decide (i = n)) = (w.getBit i || y && decide (i = n))) :
    x = y ∧ v = w := by
  refine ⟨?_, eq_of_getBit_eq fun i => ?_⟩
  · simpa only [hv, hw, Bool.false_or, decide_true, Bool.and_true] using h n
  · by_cases hi : i = n
    · rw [hi, hv, hw]
    · simpa only [hi, decide_false, Bool.and_false, Bool.or_false] using h i

end Word

namespace Spec

variable {ps qs : List Part} {a b : UInt8}

/-- Two lists of parts that are laid out alike. -/
structure SameLayout (ps qs : List Part) : Prop where
  width : widthOf ps = widthOf qs
  set : setMask ps = setMask qs
  fixed : fixedMask ps = fixedMask qs
  captures : captures ps = captures qs

namespace SameLayout

theorem symm (h : SameLayout ps qs) : SameLayout qs ps :=
  ⟨h.width.symm, h.set.symm, h.fixed.symm, h.captures.symm⟩

/-! ## The topmost part -/

theorem not_literal_field {width : UInt32} {name : Option String}
    (h : SameLayout (.literal a :: ps) (.field width name :: qs)) (hv : (Part.field width name).Valid)
    (hfit : widthOf (.literal a :: ps) ≤ size) : False := by
  have hpos : 0 < width.toNat := hv.width_pos
  have hwidth := h.width
  rw [widthOf, widthOf, Part.width, Part.width] at hwidth
  have hqs : widthOf qs ≤ size := widthOf_le_of_cons (h.width ▸ hfit)
  -- The literal's bit lies above all literals of `qs`.
  have htop : (fixedMask (.literal a :: ps)).getBit (widthOf ps) = true := by
    rw [getBit_fixedMask_literal hfit, decide_eq_true rfl, Bool.or_true]
  rw [h.fixed, fixedMask, getBit_fixedMask_of_le hqs (by omega)] at htop
  cases htop

theorem of_field {v w : UInt32} {m n : Option String}
    (h : SameLayout (.field v m :: ps) (.field w n :: qs)) :
    Part.field v m = .field w n ∧ SameLayout ps qs := by
  have hcaptures := h.captures
  rw [Spec.captures, Spec.captures, List.cons.injEq, Capture.mk.injEq] at hcaptures
  obtain ⟨⟨hname, -, hwidth⟩, hcaptures⟩ := hcaptures
  obtain rfl : v = w := UInt32.toNat_inj.mp hwidth
  refine ⟨by rw [hname], ?_, h.set, h.fixed, hcaptures⟩
  exact Nat.add_left_cancel h.width

theorem of_literal (h : SameLayout (.literal a :: ps) (.literal b :: qs))
    (ha : (Part.literal a).Valid) (hb : (Part.literal b).Valid)
    (hfit : widthOf (.literal a :: ps) ≤ size) :
    Part.literal a = .literal b ∧ SameLayout ps qs := by
  have hwidth : widthOf ps = widthOf qs := Nat.add_left_cancel h.width
  have hfit' : widthOf (.literal b :: qs) ≤ size := h.width ▸ hfit
  have hps := widthOf_le_of_cons hfit
  have hqs := widthOf_le_of_cons hfit'
  -- The literals are on one bit, and neither rest reaches up to it.
  obtain ⟨-, hfixed⟩ : true = true ∧ fixedMask ps = fixedMask qs := by
    refine Word.eq_of_getBit_or_eq (getBit_fixedMask_of_le hps (Nat.le_refl _))
      (getBit_fixedMask_of_le hqs (Nat.le_of_eq hwidth.symm)) fun i => ?_
    rw [Bool.true_and, ← getBit_fixedMask_literal hfit, h.fixed, getBit_fixedMask_literal hfit', hwidth]
  obtain ⟨hbit, hset⟩ : decide (a = 1) = decide (b = 1) ∧ setMask ps = setMask qs := by
    refine Word.eq_of_getBit_or_eq (getBit_setMask_of_le hps (Nat.le_refl _))
      (getBit_setMask_of_le hqs (Nat.le_of_eq hwidth.symm)) fun i => ?_
    rw [← getBit_setMask_literal hfit, h.set, getBit_setMask_literal hfit', hwidth]
  have hab : a = b := by
    rcases ha with rfl | rfl <;> rcases hb with rfl | rfl <;> simp_all
  exact ⟨by rw [hab], hwidth, hset, hfixed, h.captures⟩

theorem eq_nil (h : SameLayout ps []) (hv : ∀ part ∈ ps, part.Valid) : ps = [] := by
  cases ps with
  | nil => rfl
  | cons part rest =>
    have hw := (hv part List.mem_cons_self).width_pos
    have hwidth := h.width
    simp only [widthOf] at hwidth
    omega

/-! ## All parts -/

/-- **A layout determines its parts**, if they are valid and fit a word. -/
theorem eq (h : SameLayout ps qs) (hps : ∀ part ∈ ps, part.Valid) (hqs : ∀ part ∈ qs, part.Valid)
    (hfit : widthOf ps ≤ size) : ps = qs := by
  induction ps generalizing qs with
  | nil => exact (h.symm.eq_nil hqs).symm
  | cons part ps ih =>
    cases qs with
    | nil => exact h.eq_nil hps
    | cons part' qs =>
      have hfit' : widthOf (part' :: qs) ≤ size := h.width ▸ hfit
      rw [List.forall_mem_cons] at hps hqs
      have hcons : part = part' ∧ SameLayout ps qs := by
        cases part with
        | literal a =>
          cases part' with
          | literal b => exact h.of_literal hps.1 hqs.1 hfit
          | field w n => exact (h.not_literal_field hqs.1 hfit).elim
        | field v m =>
          cases part' with
          | literal b => exact (h.symm.not_literal_field hps.1 hfit').elim
          | field w n => exact h.of_field
      rw [hcons.1, ih hcons.2 hps.2 hqs.2 (widthOf_le_of_cons hfit)]

end SameLayout

/-- **Compiling loses nothing.** Two compiled patterns are equal exactly when
they have the same name and were compiled from the same parts. -/
theorem compile_eq_compile_iff {name name' : Option String} {s t : Spec} {p q : Pattern}
    (hp : s.compile name = .ok p) (hq : t.compile name' = .ok q) :
    p = q ↔ name = name' ∧ s.parts = t.parts := by
  obtain ⟨hs, rfl⟩ := compile_eq_ok_iff.mp hp
  obtain ⟨ht, rfl⟩ := compile_eq_ok_iff.mp hq
  constructor
  · intro h
    rw [layOut, layOut, Pattern.mk.injEq] at h
    obtain ⟨hname, hwidth, hset, hfixed, -, hcaptures⟩ := h
    exact ⟨hname, SameLayout.eq ⟨hwidth, hset, hfixed, hcaptures⟩ hs.parts ht.parts hs.fits⟩
  · rintro ⟨hname, hparts⟩
    cases s
    cases t
    cases hname
    cases hparts
    rfl

/-- One field of five bits and two that share them are laid out differently,
though they fix the same bits. -/
theorem compile_split_field_ne :
    let whole : Spec := ⟨[.literal 0, .field 5 (some "r")]⟩
    let split : Spec := ⟨[.literal 0, .field 2 (some "r"), .field 3 (some "r")]⟩
    ∃ p q, whole.compile none = .ok p ∧ split.compile none = .ok q ∧
      p.setMask = q.setMask ∧ p.fixedMask = q.fixedMask ∧ p.length = q.length ∧ p ≠ q := by
  intro whole split
  have hwhole : whole.compile none = .ok (whole.layOut none) := rfl
  have hsplit : split.compile none = .ok (split.layOut none) := rfl
  refine ⟨_, _, hwhole, hsplit, by decide, by decide, by decide, fun h => ?_⟩
  have hparts := ((compile_eq_compile_iff hwhole hsplit).mp h).2
  simp [whole, split] at hparts

end Spec
end WordPattern
