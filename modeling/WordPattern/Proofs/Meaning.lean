/-
What a text means for words. The bits of a word stand under the characters of a
text, the last over bit 0: a `0` or `1` asks for its bit, and a letter names the
number that the bits under it write, `ofText_meaning`.
-/
import WordPattern.Error
import WordPattern.Proofs.Layout
import WordPattern.Proofs.Number
import WordPattern.Proofs.Reading

namespace WordPattern
namespace Spec

open Word (size)

/-- Each `0` and `1` of the characters `s` has its bit in `w`. -/
def BitsIn (w : Word) (s : List Char) : Prop :=
  ∀ i : Nat, (s[i]? = some '0' → w.getBit (s.length - 1 - i) = false) ∧
    (s[i]? = some '1' → w.getBit (s.length - 1 - i) = true)

/-- The letters of the characters `s`, each at its first occurrence. -/
def letters (s : List Char) : List Char := (s.filter Char.isAlpha).eraseDups

/-- The bits of `w` under the letter `c`, from left to right. -/
def letterBits (w : Word) (s : List Char) (c : Char) : List Bool :=
  ((List.range s.length).filter fun i => s[i]? = some c).map fun i => w.getBit (s.length - 1 - i)

variable {s : List Char} {ps : List Part} {w : Word} {c ch : Char}

/-! ## Character by character -/

theorem bitsIn_cons :
    BitsIn w (ch :: s) ↔
      ((ch = '0' → w.getBit s.length = false) ∧ (ch = '1' → w.getBit s.length = true)) ∧ BitsIn w s := by
  have hpos : ∀ i, (ch :: s).length - 1 - (i + 1) = s.length - 1 - i := by
    intro i
    rw [List.length_cons]
    omega
  constructor
  · intro h
    refine ⟨by simpa using h 0, fun i => ?_⟩
    have hi := h (i + 1)
    rwa [hpos, List.getElem?_cons_succ] at hi
  · intro ⟨h0, h⟩ i
    cases i with
    | zero => simpa using h0
    | succ i =>
      rw [hpos, List.getElem?_cons_succ]
      exact h i

theorem bitsIn_block (hc : c.isAlpha = true) (k : Nat) :
    BitsIn w (List.replicate k c ++ s) ↔ BitsIn w s := by
  have h0 : c ≠ '0' := isAlpha_ne hc (by decide)
  have h1 : c ≠ '1' := isAlpha_ne hc (by decide)
  induction k with
  | zero => simp
  | succ k ih =>
    rw [List.replicate_succ, List.cons_append, bitsIn_cons,
      and_iff_right ⟨fun h => absurd h h0, fun h => absurd h h1⟩]
    exact ih

theorem letterBits_cons :
    letterBits w (ch :: s) c = (if ch = c then [w.getBit s.length] else []) ++ letterBits w s c := by
  have hrest : ((List.range s.length).map Nat.succ |>.filter fun i => (ch :: s)[i]? = some c).map
      (fun i => w.getBit ((ch :: s).length - 1 - i)) = letterBits w s c := by
    rw [letterBits, List.filter_map, List.map_map]
    refine List.map_congr_left fun i _ => ?_
    simp only [Function.comp_apply, List.length_cons, Nat.succ_eq_add_one]
    congr 1
    omega
  rw [← hrest, letterBits, List.length_cons, List.range_succ_eq_map, List.filter_cons]
  by_cases h : ch = c <;> simp [h]

theorem letterBits_block (k : Nat) :
    letterBits w (List.replicate k c ++ s) c =
      ((List.range k).map fun j => w.getBit (s.length + k - 1 - j)) ++ letterBits w s c := by
  induction k with
  | zero => simp
  | succ k ih =>
    rw [List.replicate_succ, List.cons_append, letterBits_cons, if_pos rfl, ih, List.range_succ_eq_map,
      List.map_cons, List.map_map, List.length_append, List.length_replicate, List.singleton_append,
      List.cons_append]
    congr 2
    · omega
    · refine List.map_congr_left fun j _ => ?_
      simp only [Function.comp_apply, Nat.succ_eq_add_one]
      congr 1
      omega

theorem letterBits_block_other {x : Char} (hx : x ≠ c) (k : Nat) :
    letterBits w (List.replicate k x ++ s) c = letterBits w s c := by
  induction k with
  | zero => simp
  | succ k ih => rw [List.replicate_succ, List.cons_append, letterBits_cons, if_neg hx, ih, List.nil_append]

theorem letterBits_of_not_mem (h : c ∉ s) : letterBits w s c = [] := by
  induction s with
  | nil => rfl
  | cons ch s ih =>
    rw [List.mem_cons, not_or] at h
    rw [letterBits_cons, if_neg (Ne.symm h.1), ih h.2, List.nil_append]

theorem letters_cons_of_not (h : ch.isAlpha = false) : letters (ch :: s) = letters s := by
  rw [letters, List.filter_cons_of_neg (by simp [h])]
  rfl

theorem letters_block {k : Nat} (hk : 0 < k) (hc : c.isAlpha = true) (hm : c ∉ s) :
    letters (List.replicate k c ++ s) = c :: letters s := by
  have hfirst : ∀ k, (List.replicate (k + 1) c).eraseDups = [c] := fun k => by
    rw [List.replicate_succ, List.eraseDups_cons, List.filter_eq_nil_iff.mpr (by simp), List.eraseDups_nil]
  have hrest : (s.filter Char.isAlpha).removeAll (List.replicate k c) = s.filter Char.isAlpha := by
    rw [List.removeAll, List.filter_eq_self]
    intro x hx
    have hne : x ≠ c := fun h => hm (h ▸ (List.mem_filter.mp hx).1)
    simp [hne]
  obtain ⟨k, rfl⟩ : ∃ k', k = k' + 1 := ⟨k - 1, by omega⟩
  rw [letters, List.filter_append, List.filter_replicate_of_pos hc, List.eraseDups_append, hfirst, hrest]
  rfl

theorem mem_letters : c ∈ letters s ↔ c ∈ s ∧ c.isAlpha = true := by
  rw [letters, List.mem_eraseDups, List.mem_filter]

theorem contiguous_of_append {u : List Char} (h : Contiguous (u ++ s) c) : Contiguous s c := by
  intro i j k hij hjk hi hk
  have hshift : ∀ i, s[i]? = (u ++ s)[u.length + i]? := fun i => by
    rw [List.getElem?_append_right (by omega), Nat.add_sub_cancel_left]
  rw [hshift] at hi hk ⊢
  exact h _ _ _ (by omega) (by omega) hi hk

theorem not_mem_of_contiguous {k : Nat} (hk : 0 < k) (h : Contiguous (List.replicate k c ++ s) c)
    (hh : s.head? ≠ some c) : c ∉ s := by
  intro hm
  obtain ⟨i, hi⟩ := List.mem_iff_getElem?.mp hm
  have h0 : (List.replicate k c ++ s)[0]? = some c := by
    rw [List.getElem?_append_left (by simpa using hk), List.getElem?_replicate_of_lt hk]
  have hi' : (List.replicate k c ++ s)[k + i]? = some c := by
    rw [List.getElem?_append_right (by simp), List.length_replicate, Nat.add_sub_cancel_left, hi]
  have hk' := h 0 k (k + i) (by omega) (by omega) h0 hi'
  rw [List.getElem?_append_right (by simp), List.length_replicate, Nat.sub_self,
    ← List.head?_eq_getElem?] at hk'
  exact hh hk'

/-! ## Part by part -/

theorem Reads.widthOf_eq (h : Reads s ps) : widthOf ps = s.length := by
  induction h with
  | nil => rfl
  | literal _ _ ih => rw [widthOf, ih, Part.width, List.length_cons, Nat.add_comm]
  | block _ _ _ _ ih => rw [widthOf, ih, Part.width, List.length_append, List.length_replicate]

theorem Reads.valid (h : Reads s ps) : ∀ part ∈ ps, part.Valid := by
  induction h with
  | nil => simp
  | literal hl _ ih =>
    refine List.forall_mem_cons.mpr ⟨?_, ih⟩
    rcases hl with ⟨-, rfl⟩ | ⟨-, rfl⟩ <;> decide
  | block _ hw _ _ ih =>
    refine List.forall_mem_cons.mpr ⟨fun h => ?_, ih⟩
    rw [h] at hw
    exact absurd hw (by decide)

/-- The literals ask for the bits that the characters ask for. -/
theorem Reads.literalsIn_iff (h : Reads s ps) (w : Word) : LiteralsIn w ps ↔ BitsIn w s := by
  induction h with
  | nil => exact iff_of_true trivial fun i => by simp
  | literal hl hrest ih =>
    rw [LiteralsIn, bitsIn_cons, ih, hrest.widthOf_eq]
    rcases hl with ⟨rfl, rfl⟩ | ⟨rfl, rfl⟩ <;> simp
  | block hc _ _ _ ih => exact ih.trans (bitsIn_block hc _).symm

/-- Each field is a letter and holds the number written under it. -/
theorem Reads.captures_eq (h : Reads s ps) (w : Word) (hlen : s.length ≤ size)
    (hone : ∀ c, c.isAlpha = true → Contiguous s c) :
    (captures ps).map (fun c => (c.name, (c.extract w).toNat)) =
      (letters s).map fun c => (some (String.singleton c), Word.number (letterBits w s c)) := by
  induction h with
  | nil => rfl
  | @literal ch bit s ps hl _ ih =>
    have hch := hl.not_alpha
    rw [List.length_cons] at hlen
    rw [captures, letters_cons_of_not hch,
      ih (by omega) fun c hc => contiguous_of_append (u := [ch]) (hone c hc)]
    refine List.map_congr_left fun c hc => ?_
    rw [letterBits_cons, if_neg (isAlpha_ne (mem_letters.mp hc).2 hch).symm, List.nil_append]
  | @block c width s ps hc hw hh hrest ih =>
    -- With one block of `c`, what is left of the characters has none of it.
    have hnot := not_mem_of_contiguous hw (hone c hc) hh
    rw [List.length_append, List.length_replicate] at hlen
    rw [captures, letters_block hw hc hnot, List.map_cons, List.map_cons,
      ih (by omega) fun c hc => contiguous_of_append (hone c hc)]
    congr 1
    · rw [letterBits_block, letterBits_of_not_mem hnot, List.append_nil, Capture.extract,
        hrest.widthOf_eq, Word.toNat_extract_above w hw hlen, ← Word.number_bits]
      simp only [Word.getBit_eq_testBit]
    · refine List.map_congr_left fun x hx => ?_
      have hne : c ≠ x := fun h => hnot (h ▸ (mem_letters.mp hx).1)
      rw [letterBits_block_other hne]

/-! ## End to end -/

theorem Reads.isValid {spec : Spec} (h : Reads s spec.parts) (hne : s ≠ []) (hlen : s.length ≤ size) :
    spec.Valid where
  nonempty := fun hps => hne (h.eq_nil_iff.mpr hps)
  fits := by rwa [totalWidth, h.widthOf_eq]
  parts := h.valid

/-- A text has a pattern when it can be read, has a bit and fits a word. -/
theorem exists_pattern_iff {name : Option String} {text : String} :
    (∃ p, Pattern.ofText name text = .ok p) ↔
      Readable text.toList ∧ bitChars text.toList ≠ [] ∧ (bitChars text.toList).length ≤ size := by
  simp only [Pattern.ofText_eq_ok_iff, compile_eq_ok_iff]
  refine ⟨fun ⟨p, spec, hspec, hv, _⟩ => ?_, fun ⟨hread, hne, hlen⟩ => ?_⟩
  · obtain ⟨hread, hne⟩ := exists_ofText_iff.mp ⟨spec, hspec⟩
    refine ⟨hread, hne, ?_⟩
    rw [← (reads_of_ofText hspec).widthOf_eq]
    exact hv.fits
  · obtain ⟨spec, hspec⟩ := exists_ofText_iff.mpr ⟨hread, hne⟩
    exact ⟨_, spec, hspec, (reads_of_ofText hspec).isValid hne hlen, rfl⟩

end Spec

open Spec

/-- **The meaning of a text.** It has a pattern exactly when its characters are
legal, no separator follows another, and the others, `s`, are at least one, fit
a word and have each letter in one block. A word matches when it has the bit of
every `0` and `1`, and gives up for each letter, in order of first occurrence,
the number written in the bits under it. -/
theorem ofText_meaning (name : Option String) (text : String) :
    let s := bitChars text.toList
    ((∃ p, Pattern.ofText name text = .ok p) ↔
      (∀ ch ∈ text.toList, ch = '0' ∨ ch = '1' ∨ ch = '_' ∨ ch.isAlpha = true) ∧
      ¬ ['_', '_'] <:+: text.toList ∧ 1 ≤ s.length ∧ s.length ≤ Word.size ∧
      ∀ c, c.isAlpha = true → Contiguous s c) ∧
    ∀ p, Pattern.ofText name text = .ok p →
      p.length = s.length ∧
      p.names = (letters s).map (fun c => some (String.singleton c)) ∧
      ∀ w : Word,
        (p.accepts w = true ↔ ∀ i : Nat,
          (s[i]? = some '0' → w.getBit (s.length - 1 - i) = false) ∧
          (s[i]? = some '1' → w.getBit (s.length - 1 - i) = true)) ∧
        (p.accepts w = true → ∃ vs, p.capture w = some vs ∧
          vs.map BitVec.toNat = (letters s).map fun c => Word.number (letterBits w s c)) := by
  intro s
  constructor
  · rw [exists_pattern_iff, ← List.length_pos_iff]
    refine ⟨fun ⟨hread, hne, hlen⟩ => ?_, fun ⟨hlegal, hsep, hne, hlen, hone⟩ => ?_⟩
    · exact ⟨hread.legal, hread.separators, hne, hlen, hread.blocks.contiguous⟩
    · exact ⟨⟨hlegal, hsep, hone, fun c _ => Nat.le_trans List.count_le_length hlen⟩, hne, hlen⟩
  · intro p hp
    obtain ⟨hread, -, hlen⟩ := exists_pattern_iff.mp ⟨p, hp⟩
    obtain ⟨spec, hspec, hcomp⟩ := Pattern.ofText_eq_ok_iff.mp hp
    obtain ⟨hv, rfl⟩ := compile_eq_ok_iff.mp hcomp
    have hreads := reads_of_ofText hspec
    have hfields := fun w => hreads.captures_eq w hlen hread.blocks.contiguous
    refine ⟨hreads.widthOf_eq, ?_, fun w => ⟨?_, fun hw => ?_⟩⟩
    · have hnames := congrArg (List.map Prod.fst) (hfields 0)
      rwa [List.map_map, List.map_map] at hnames
    · rw [accepts_layOut hv.fits, hreads.literalsIn_iff]
      rfl
    · have hvalues := congrArg (List.map Prod.snd) (hfields w)
      rw [List.map_map, List.map_map] at hvalues
      refine ⟨_, if_pos hw, ?_⟩
      rw [Pattern.values, List.map_map]
      exact hvalues

end WordPattern
