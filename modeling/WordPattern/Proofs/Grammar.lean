/-
The language of texts. Characters are read as literals and maximal blocks in one
way at most, `Reads.unique`, so a text's spec is settled by its characters other
than separators; `ofText_language` adds when there is one.
-/
import Mathlib.Data.List.TakeWhile
import WordPattern.Proofs.Reading

namespace WordPattern
namespace Spec

open Word (size)

variable {s t : List Char} {ps qs : List Part} {c : Char}

/-! ## Reading characters in one way -/

/-- Where a block ends is settled by the characters. -/
theorem block_inj (k k' : Nat) (h : List.replicate k c ++ s = List.replicate k' c ++ t)
    (hs : s.head? ≠ some c) (ht : t.head? ≠ some c) : k = k' ∧ s = t := by
  induction k generalizing k' with
  | zero =>
    cases k' with
    | zero => exact ⟨rfl, h⟩
    | succ k' =>
      rw [List.replicate_zero, List.nil_append] at h
      exact absurd (by rw [h]; rfl) hs
  | succ k ih =>
    cases k' with
    | zero =>
      rw [List.replicate_zero, List.nil_append] at h
      exact absurd (by rw [← h]; rfl) ht
    | succ k' =>
      rw [List.replicate_succ, List.replicate_succ, List.cons_append, List.cons_append,
        List.cons.injEq] at h
      obtain ⟨hk, hst⟩ := ih k' h.2
      exact ⟨congrArg (· + 1) hk, hst⟩

theorem IsLiteral.unique {ch : Char} {bit bit' : UInt8} (h : IsLiteral ch bit) (h' : IsLiteral ch bit') :
    bit = bit' := by
  rcases h with ⟨rfl, rfl⟩ | ⟨rfl, rfl⟩ <;> rcases h' with ⟨hch, rfl⟩ | ⟨hch, rfl⟩
  · rfl
  · exact absurd hch (by decide)
  · exact absurd hch (by decide)
  · rfl

theorem exists_cons_of_block {k : Nat} (hk : 0 < k) (c : Char) (s : List Char) :
    ∃ s', List.replicate k c ++ s = c :: s' := by
  obtain ⟨k, rfl⟩ : ∃ k', k = k' + 1 := ⟨k - 1, by omega⟩
  exact ⟨_, rfl⟩

theorem Reads.of_literal {ch : Char} {bit : UInt8} (h : Reads (ch :: s) qs) (hl : IsLiteral ch bit) :
    ∃ qs', qs = .literal bit :: qs' ∧ Reads s qs' := by
  generalize hu : ch :: s = u at h
  cases h with
  | nil => cases hu
  | literal hl' hrest =>
    obtain ⟨rfl, rfl⟩ := List.cons.inj hu
    exact ⟨_, by rw [hl.unique hl'], hrest⟩
  | @block x width s' _ hx hw _ _ =>
    obtain ⟨s'', hcons⟩ := exists_cons_of_block hw x s'
    rw [hcons] at hu
    obtain ⟨rfl, -⟩ := List.cons.inj hu
    rw [hl.not_alpha] at hx
    cases hx

theorem Reads.of_block {width : UInt32} (h : Reads (List.replicate width.toNat c ++ s) qs)
    (hc : c.isAlpha = true) (hw : 0 < width.toNat) (hs : s.head? ≠ some c) :
    ∃ qs', qs = .field width (some (String.singleton c)) :: qs' ∧ Reads s qs' := by
  obtain ⟨u, hcons⟩ := exists_cons_of_block hw c s
  generalize hv : List.replicate width.toNat c ++ s = v at h
  cases h with
  | nil =>
    rw [hcons] at hv
    cases hv
  | literal hl _ =>
    rw [hcons] at hv
    obtain ⟨rfl, -⟩ := List.cons.inj hv
    rw [hl.not_alpha] at hc
    cases hc
  | @block x width' s' _ _ hw' hs' hrest =>
    obtain ⟨u', hcons'⟩ := exists_cons_of_block hw' x s'
    obtain ⟨rfl, -⟩ := List.cons.inj (hcons.symm.trans (hv.trans hcons'))
    obtain ⟨hwidth, rfl⟩ := block_inj _ _ hv hs hs'
    exact ⟨_, by rw [UInt32.toNat_inj.mp hwidth], hrest⟩

/-- **Characters are read in one way at most.** -/
theorem Reads.unique (h : Reads s ps) (h' : Reads s qs) : ps = qs := by
  induction h generalizing qs with
  | nil => exact (h'.eq_nil_iff.mp rfl).symm
  | literal hl _ ih =>
    obtain ⟨qs', rfl, hrest⟩ := h'.of_literal hl
    rw [ih hrest]
  | block hc hw hs _ ih =>
    obtain ⟨qs', rfl, hrest⟩ := h'.of_block hc hw hs
    rw [ih hrest]

/-! ## The width of a block -/

theorem replicate_trailing_suffix (c : Char) (s : List Char) : List.replicate (trailing c s) c <:+ s := by
  have hblock : s.reverse.takeWhile (· == c) = List.replicate (trailing c s) c :=
    List.eq_replicate_of_mem fun x hx => by simpa using List.mem_takeWhile_imp hx
  rw [← List.reverse_prefix, List.reverse_replicate, ← hblock]
  exact List.takeWhile_prefix _

theorem isInfix_replicate_count (h : Contiguous s c) : List.replicate (s.count c) c <:+: s := by
  induction s using List.reverseRecOn with
  | nil => exact List.infix_rfl
  | append_singleton s x ih =>
    -- The block of `c` ends with `x`, or lies in `s` already.
    by_cases hx : x = c
    · rw [← trailing_eq_count h fun _ => by rw [List.getLast?_concat, hx]]
      exact (replicate_trailing_suffix c _).isInfix
    · rw [List.count_append, List.count_singleton, if_neg (by simpa using hx), Nat.add_zero]
      exact (ih (contiguous_append.mp h).1).trans (List.prefix_append s [x]).isInfix

/-- How often a letter with one block occurs is how wide its widest run is. -/
theorem count_le_iff (h : Contiguous s c) :
    s.count c ≤ size ↔ ∀ k, List.replicate k c <:+: s → k ≤ size := by
  refine ⟨fun hcount k hk => ?_, fun hall => hall _ (isInfix_replicate_count h)⟩
  calc k = (List.replicate k c).count c := List.count_replicate_self.symm
    _ ≤ s.count c := hk.sublist.count_le c
    _ ≤ size := hcount

theorem blocks_iff :
    Blocks s ↔ (∀ c, c.isAlpha = true → Contiguous s c) ∧
      ∀ c k, c.isAlpha = true → List.replicate k c <:+: s → k ≤ size := by
  refine ⟨fun h => ⟨h.contiguous, fun c k hc => ?_⟩, fun ⟨hone, hwidth⟩ => ⟨hone, fun c hc => ?_⟩⟩
  · exact (count_le_iff (h.contiguous c hc)).mp (h.narrow c hc) k
  · exact (count_le_iff (hone c hc)).mpr fun k => hwidth c k hc

/-! ## The language -/

/-- **The language of texts.** A text is a spec exactly when all its characters
are legal, no separator follows another, and there are others, `s`, with one
block for each letter and none wider than a word. Its parts are the only reading
of `s`, so separators do not matter to it. -/
theorem ofText_language (text : String) :
    let s := bitChars text.toList
    ((∃ spec, ofText text = .ok spec) ↔
      (∀ ch ∈ text.toList, ch = '0' ∨ ch = '1' ∨ ch = '_' ∨ ch.isAlpha = true) ∧
      ¬ ['_', '_'] <:+: text.toList ∧ s ≠ [] ∧
      (∀ c, c.isAlpha = true → Contiguous s c) ∧
      ∀ c k, c.isAlpha = true → List.replicate k c <:+: s → k ≤ size) ∧
    (∀ spec, ofText text = .ok spec → ∀ ps, Reads s ps ↔ ps = spec.parts) ∧
    ∀ text' spec spec', bitChars text'.toList = s → ofText text = .ok spec → ofText text' = .ok spec' →
      spec = spec' := by
  intro s
  refine ⟨?_, fun spec hspec ps => ?_, fun text' spec spec' hs hspec hspec' => ?_⟩
  · rw [exists_ofText_iff, ← blocks_iff]
    refine ⟨fun ⟨hread, hne⟩ => ?_, fun ⟨hlegal, hsep, hne, hblocks⟩ => ?_⟩
    · exact ⟨hread.legal, hread.separators, hne, hread.blocks⟩
    · exact ⟨⟨hlegal, hsep, hblocks⟩, hne⟩
  · have hreads := reads_of_ofText hspec
    exact ⟨fun h => h.unique hreads, fun h => h ▸ hreads⟩
  · have hreads' := reads_of_ofText hspec'
    rw [hs] at hreads'
    have hparts := (reads_of_ofText hspec).unique hreads'
    cases spec
    exact congrArg Spec.mk hparts

end Spec
end WordPattern
