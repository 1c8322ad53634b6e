/-
How many words a pattern matches: as many as there are ways to choose the bits
that are not fixed, those above its length among them, `card_matched`. So the
specificity measures this: each literal halves the matched words.
-/
import Mathlib.Data.FinEnum
import Mathlib.Data.Finset.Powerset
import WordPattern.Proofs.Masks

namespace WordPattern

open Word (size)

/-! ## Words by their set bits -/

namespace Word

variable {v w : Word}

theorem ones_subset (w : Word) : w.ones ⊆ Finset.range size := Finset.filter_subset _ _

theorem eq_of_ones_eq (h : v.ones = w.ones) : v = w := by
  refine eq_of_getBit_eq fun i => ?_
  rw [Bool.eq_iff_iff, ← mem_ones, ← mem_ones, h]

/-- Any bits are the set bits of some word. -/
theorem exists_ones_eq {s : Finset Nat} (h : s ⊆ Finset.range size) : ∃ w : Word, w.ones = s := by
  induction s using Finset.induction_on with
  | empty =>
    refine ⟨0, Finset.eq_empty_iff_forall_notMem.mpr fun i hi => ?_⟩
    rw [mem_ones, getBit_zero] at hi
    cases hi
  | insert n s _ ih =>
    rw [Finset.insert_subset_iff, Finset.mem_range] at h
    obtain ⟨w, rfl⟩ := ih h.2
    exact ⟨w.setBit n, ones_setBit w h.1⟩

end Word

/-! ## Matching words -/

namespace Pattern

variable {p : Pattern} {v w : Word}

/-- The words that match. -/
def matched (p : Pattern) : Finset Word := Finset.univ.filter fun w => p.accepts w = true

@[simp] theorem mem_matched : w ∈ p.matched ↔ p.accepts w = true := by
  rw [matched, Finset.mem_filter, and_iff_right (Finset.mem_univ w)]

/-- The positions that no literal fixes. -/
def free (p : Pattern) : Finset Nat := Finset.range size \ p.fixedMask.ones

theorem card_free (p : Pattern) : p.free.card = size - p.fixedMask.ones.card := by
  rw [free, Finset.card_sdiff_of_subset (Word.ones_subset _), Finset.card_range]

/-- A word matches when it sets, of the fixed bits, those that must be set. -/
theorem accepts_iff_ones : p.accepts w = true ↔ w.ones ∩ p.fixedMask.ones = p.setMask.ones ∩ p.fixedMask.ones := by
  rw [accepts_iff_getBit, Finset.ext_iff]
  simp only [Finset.mem_inter, Word.mem_ones, and_congr_left_iff, ← Bool.eq_iff_iff]

/-- Whatever free bits are set, one matching word sets these. -/
theorem exists_matched {s : Finset Nat} (hs : s ⊆ p.free) :
    ∃ w, p.accepts w = true ∧ w.ones \ p.fixedMask.ones = s := by
  obtain ⟨hrange, hfree⟩ := Finset.subset_sdiff.mp hs
  have hset : p.setMask.ones ∩ p.fixedMask.ones ⊆ Finset.range size :=
    Finset.inter_subset_left.trans (Word.ones_subset _)
  obtain ⟨w, hw⟩ := Word.exists_ones_eq (Finset.union_subset hrange hset)
  refine ⟨w, accepts_iff_ones.mpr ?_, ?_⟩
  · rw [hw, Finset.union_inter_distrib_right, Finset.disjoint_iff_inter_eq_empty.mp hfree, Finset.empty_union,
      Finset.inter_assoc, Finset.inter_self]
  · rw [hw, Finset.union_sdiff_distrib, Finset.sdiff_eq_self_of_disjoint hfree,
      Finset.sdiff_eq_empty_iff_subset.mpr Finset.inter_subset_right, Finset.union_empty]

theorem eq_of_accepts (hv : p.accepts v = true) (hw : p.accepts w = true)
    (h : v.ones \ p.fixedMask.ones = w.ones \ p.fixedMask.ones) : v = w := by
  apply Word.eq_of_ones_eq
  rw [← Finset.sdiff_union_inter v.ones p.fixedMask.ones, h, accepts_iff_ones.mp hv, ← accepts_iff_ones.mp hw,
    Finset.sdiff_union_inter]

/-- **A pattern matches one word for each choice of its free bits.** -/
theorem card_matched (p : Pattern) : p.matched.card = 2 ^ (size - p.fixedMask.ones.card) := by
  rw [← card_free, ← Finset.card_powerset]
  refine Finset.card_bij (fun w _ => w.ones \ p.fixedMask.ones) (fun w _ => ?_) (fun v hv w hw h => ?_)
    fun s hs => ?_
  · exact Finset.mem_powerset.mpr (Finset.sdiff_subset_sdiff (Word.ones_subset w) (Finset.Subset.refl _))
  · exact eq_of_accepts (mem_matched.mp hv) (mem_matched.mp hw) h
  · obtain ⟨w, hw, hfree⟩ := exists_matched (Finset.mem_powerset.mp hs)
    exact ⟨w, mem_matched.mpr hw, hfree⟩

theorem Compiled.specificity_le (h : p.Compiled) : p.specificity ≤ size := by
  rw [h.specificity_eq]
  calc p.fixedMask.ones.card ≤ (Finset.range size).card := Finset.card_le_card (Word.ones_subset _)
    _ = size := Finset.card_range size

theorem Compiled.card_matched_eq (h : p.Compiled) : p.matched.card = 2 ^ (size - p.specificity) := by
  rw [card_matched, h.specificity_eq]

end Pattern

/-- **The specificity measures the matched words**: a pattern of specificity `n`
matches `2 ^ (32 - n)` of them. So the more specific of two patterns matches
fewer words, and equally specific ones match equally many. -/
theorem Spec.card_matched_of_compile {name : Option String} {s : Spec} {p : Pattern}
    (h : s.compile name = .ok p) :
    p.specificity + p.captures.length = s.parts.length ∧
    p.specificity ≤ size ∧
    p.matched.card = 2 ^ (size - p.specificity) ∧
    ∀ (name' : Option String) (t : Spec) (q : Pattern), t.compile name' = .ok q →
      (p.specificity < q.specificity ↔ q.matched.card < p.matched.card) ∧
      (p.specificity = q.specificity ↔ p.matched.card = q.matched.card) := by
  have hp : p.Compiled := ⟨name, s, h⟩
  refine ⟨?_, hp.specificity_le, hp.card_matched_eq, fun name' t q h' => ?_⟩
  · obtain ⟨-, rfl⟩ := compile_eq_ok_iff.mp h
    have hle := List.countP_le_length (p := Part.isField) (l := s.parts)
    simp only [layOut, length_captures]
    omega
  · have hq : q.Compiled := ⟨name', t, h'⟩
    have hple := hp.specificity_le
    have hqle := hq.specificity_le
    rw [hp.card_matched_eq, hq.card_matched_eq, Nat.pow_lt_pow_iff_right Nat.one_lt_two,
      Nat.pow_right_inj (Nat.le_refl 2)]
    omega

/-- A literal leaves half of the words, and a field alone all of them. -/
theorem Spec.card_matched_halves :
    let half : Spec := ⟨[.field 1 none, .literal 1]⟩
    let all : Spec := ⟨[.field 32 none]⟩
    half.compile none = .ok (half.layOut none) ∧ all.compile none = .ok (all.layOut none) ∧
      (half.layOut none).matched.card = 2 ^ 31 ∧
      (half.layOut none).matched.card < (all.layOut none).matched.card := by
  intro half all
  have hhalf : half.compile none = .ok (half.layOut none) := by decide
  have hall : all.compile none = .ok (all.layOut none) := by decide
  obtain ⟨-, -, hcard, -⟩ := card_matched_of_compile hhalf
  obtain ⟨-, -, -, hcompare⟩ := card_matched_of_compile hall
  exact ⟨hhalf, hall, hcard, (hcompare none half _ hhalf).1.mp (by decide)⟩

end WordPattern
