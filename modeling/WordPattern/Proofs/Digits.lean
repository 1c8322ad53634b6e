/-
What the digits of a rendering say. A pattern's text has a digit where a literal
is and a letter where a field is, so the digits tell the masks, and
`annotated_digit_by_digit` reads the three rows column by column.
-/
import Mathlib.Data.Nat.Count
import WordPattern.Pattern.Render
import WordPattern.Proofs.Comparison
import WordPattern.Proofs.Tiling

namespace WordPattern

open Word (size)

/-! ## Binary digits -/

namespace Word

/-- How a bit is written. -/
def digit (bit : Bool) : Char := if bit then '1' else '0'

theorem digit_eq_one_iff {bit : Bool} : digit bit = '1' ↔ bit = true := by
  cases bit <;> decide

theorem digit_zero_or_one (bit : Bool) : digit bit = '0' ∨ digit bit = '1' := by
  cases bit
  · exact .inl rfl
  · exact .inr rfl

theorem digitChar_mod_two (x : Nat) : (x % 2).digitChar = digit (x.testBit 0) := by
  rw [Nat.testBit_zero]
  rcases Nat.mod_two_eq_zero_or_one x with h | h <;> rw [h] <;> decide

theorem reverse_range_succ (n : Nat) :
    (List.range (n + 1)).reverse = ((List.range n).reverse.map Nat.succ) ++ [0] := by
  rw [List.range_succ_eq_map, List.reverse_cons, List.map_reverse]

theorem leftpad_append_digit (n : Nat) (ds : List Char) (d : Char) :
    (ds ++ [d]).leftpad (n + 1) '0' = ds.leftpad n '0' ++ [d] := by
  rw [List.leftpad, List.leftpad, List.length_append, List.length_singleton, Nat.add_sub_add_right,
    List.append_assoc]

theorem leftpad_zero (n : Nat) : ['0'].leftpad (n + 1) '0' = [].leftpad (n + 1) '0' := by
  rw [List.leftpad, List.leftpad, List.length_nil, List.append_nil, Nat.sub_zero, List.replicate_succ']
  rfl

/-- A number with room for its digits is written bit by bit. -/
theorem leftpad_toDigits {n x : Nat} (h : x < 2 ^ (n + 1)) :
    (Nat.toDigits 2 x).leftpad (n + 1) '0' = (List.range (n + 1)).reverse.map fun i => digit (x.testBit i) := by
  induction n generalizing x with
  | zero =>
    have hx : x < 2 := h
    rw [Nat.toDigits_of_lt_base hx, ← Nat.mod_eq_of_lt hx, digitChar_mod_two, Nat.mod_eq_of_lt hx]
    rfl
  | succ n ih =>
    -- The last digit, and half of the number before it.
    have hhalf : x / 2 < 2 ^ (n + 1) := by
      rw [Nat.pow_succ] at h
      omega
    have hlast : (Nat.toDigits 2 x).leftpad (n + 2) '0' =
        (Nat.toDigits 2 (x / 2)).leftpad (n + 1) '0' ++ [digit (x.testBit 0)] := by
      rw [Nat.toDigits_eq_if Nat.one_lt_two, ← digitChar_mod_two]
      split
      · next hx =>
        rw [Nat.div_eq_of_lt hx, Nat.mod_eq_of_lt hx, Nat.toDigits_of_lt_base Nat.zero_lt_two]
        exact (leftpad_append_digit (n + 1) [] _).trans (congrArg (· ++ _) (leftpad_zero n).symm)
      · exact leftpad_append_digit (n + 1) _ _
    rw [hlast, ih hhalf, reverse_range_succ (n + 1), List.map_append, List.map_map, List.map_singleton]
    refine congrArg (· ++ _) (List.map_congr_left fun i _ => ?_)
    rw [Function.comp_apply, Nat.testBit_succ]

variable {w : Word} {n : Nat}

/-- **A word in binary is its bits**, the most significant first, if the digits
have room for those that are set. -/
theorem binary_eq (hn : 0 < n) (h : ∀ i, w.getBit i = true → i < n) :
    w.binary n = (List.range n).reverse.map fun i => digit (w.getBit i) := by
  obtain ⟨n, rfl⟩ : ∃ n', n = n' + 1 := ⟨n - 1, by omega⟩
  rw [binary, leftpad_toDigits (toNat_lt_of_getBit h)]
  simp only [getBit_eq_testBit]

theorem getElem?_map_reverse_range {α : Type} (f : Nat → α) {i : Nat} (hi : i < n) :
    ((List.range n).reverse.map f)[i]? = some (f (n - 1 - i)) := by
  rw [List.getElem?_map, List.getElem?_reverse (by simpa using hi), List.length_range,
    List.getElem?_range (by omega), Option.map_some]

theorem length_binary (hn : 0 < n) (h : ∀ i, w.getBit i = true → i < n) : (w.binary n).length = n := by
  rw [binary_eq hn h, List.length_map, List.length_reverse, List.length_range]

theorem getElem?_binary (h : ∀ i, w.getBit i = true → i < n) {i : Nat} (hi : i < n) :
    (w.binary n)[i]? = some (digit (w.getBit (n - 1 - i))) := by
  rw [binary_eq (Nat.zero_lt_of_lt hi) h]
  exact getElem?_map_reverse_range _ hi

theorem mem_binary (hn : 0 < n) (h : ∀ i, w.getBit i = true → i < n) :
    ∀ ch ∈ w.binary n, ch = '0' ∨ ch = '1' := by
  rw [binary_eq hn h]
  exact List.forall_mem_map.mpr fun i _ => digit_zero_or_one _

theorem count_binary (hn : 0 < n) (h : ∀ i, w.getBit i = true → i < n) :
    (w.binary n).count '1' = w.ones.card := by
  have hones : w.ones = (Finset.range n).filter fun i => w.getBit i = true := by
    ext i
    rw [mem_ones, Finset.mem_filter, Finset.mem_range]
    exact ⟨fun hi => ⟨h i hi, hi⟩, And.right⟩
  rw [binary_eq hn h, List.map_reverse, List.count_reverse, List.count, List.countP_map, hones,
    ← Nat.count_eq_card_filter_range, Nat.count]
  refine List.countP_congr fun i _ => ?_
  simp [digit_eq_one_iff]

end Word

/-! ## Symbols -/

theorem Capture.isAlpha_symbol (c : Capture) : c.symbol.isAlpha = true := by
  rw [Capture.symbol]
  split
  · split
    · next hletter => exact hletter
    · rfl
  · rfl

namespace Pattern

variable {p : Pattern} {i pos : Nat}

theorem symbolAt_of_fixed (h : p.fixedMask.getBit pos = true) :
    p.symbolAt pos = Word.digit (p.setMask.getBit pos) := by
  rw [symbolAt, h]
  rfl

theorem isAlpha_symbolAt (h : p.fixedMask.getBit pos = false) : (p.symbolAt pos).isAlpha = true := by
  rw [symbolAt, h]
  cases p.captureAt? pos with
  | none => rfl
  | some c => exact c.isAlpha_symbol

/-- A digit stands for a literal. -/
theorem symbolAt_digit_iff :
    p.symbolAt pos = '0' ∨ p.symbolAt pos = '1' ↔ p.fixedMask.getBit pos = true := by
  cases h : p.fixedMask.getBit pos with
  | true =>
    rw [symbolAt_of_fixed h]
    exact iff_of_true (Word.digit_zero_or_one _) rfl
  | false =>
    have hletter := isAlpha_symbolAt h
    refine iff_of_false (fun hdigit => ?_) Bool.false_ne_true
    rcases hdigit with hdigit | hdigit <;> rw [hdigit] at hletter <;> exact absurd hletter (by decide)

/-- The digit 1 stands for a literal that must be 1. -/
theorem Compiled.symbolAt_one_iff (h : p.Compiled) :
    p.symbolAt pos = '1' ↔ p.setMask.getBit pos = true := by
  constructor
  · intro hone
    have hfixed := symbolAt_digit_iff.mp (.inr hone)
    rw [symbolAt_of_fixed hfixed] at hone
    exact Word.digit_eq_one_iff.mp hone
  · intro hset
    rw [symbolAt_of_fixed (h.fixed_of_set hset)]
    exact Word.digit_eq_one_iff.mpr hset

theorem getElem?_symbols (h : i < p.length) : p.symbols[i]? = some (p.symbolAt (p.length - 1 - i)) :=
  Word.getElem?_map_reverse_range p.symbolAt h

/-! ## The annotation -/

theorem Compiled.length_pos (h : p.Compiled) : 0 < p.length := by
  obtain ⟨name, s, h⟩ := h
  obtain ⟨hv, rfl⟩ := Spec.compile_eq_ok_iff.mp h
  exact Spec.widthOf_pos hv.nonempty hv.parts

theorem renderAnnotated_eq (p : Pattern) :
    p.renderAnnotated = p.render ++ " (is_set=" ++ String.ofList (p.setMask.binary p.length) ++
      ", non_var=" ++ String.ofList (p.fixedMask.binary p.length) ++
      ", specificity=" ++ toString p.specificity ++ ")" := by
  simp only [renderAnnotated, notePieces, String.join, List.foldl_cons, List.foldl_nil,
    String.empty_append, String.append_assoc]

/-- **The annotation repeats the rendering digit by digit**, in two rows of its
length. The second row has a 1 where the rendering has a digit, and the first
where that digit is 1. The number counts the ones of the second row. -/
theorem annotated_digit_by_digit (h : p.Compiled) :
    let row := p.render.toList
    let set := p.setMask.binary p.length
    let fixed := p.fixedMask.binary p.length
    p.renderAnnotated = p.render ++ " (is_set=" ++ String.ofList set ++ ", non_var=" ++ String.ofList fixed ++
      ", specificity=" ++ toString (fixed.count '1') ++ ")" ∧
    set.length = row.length ∧ fixed.length = row.length ∧
    (∀ ch ∈ set ++ fixed, ch = '0' ∨ ch = '1') ∧
    ∀ i < row.length,
      (row[i]? = some '0' ∨ row[i]? = some '1' ↔ fixed[i]? = some '1') ∧
      (row[i]? = some '1' ↔ set[i]? = some '1') := by
  intro row set fixed
  have hrow : row = p.symbols := String.toList_ofList
  have hcount : fixed.count '1' = p.specificity := by
    rw [h.specificity_eq]
    exact Word.count_binary h.length_pos fun i => h.lt_of_fixed
  refine ⟨?_, ?_, ?_, ?_, fun i hi => ?_⟩
  · rw [hcount]
    exact p.renderAnnotated_eq
  · rw [hrow, length_symbols]
    exact Word.length_binary h.length_pos fun i => h.lt_of_set
  · rw [hrow, length_symbols]
    exact Word.length_binary h.length_pos fun i => h.lt_of_fixed
  · exact List.forall_mem_append.mpr ⟨Word.mem_binary h.length_pos fun i => h.lt_of_set,
      Word.mem_binary h.length_pos fun i => h.lt_of_fixed⟩
  · rw [hrow, length_symbols] at hi
    rw [hrow, getElem?_symbols hi, Word.getElem?_binary (fun i => h.lt_of_set) hi,
      Word.getElem?_binary (fun i => h.lt_of_fixed) hi]
    simp only [Option.some.injEq, Word.digit_eq_one_iff]
    exact ⟨symbolAt_digit_iff, h.symbolAt_one_iff⟩

/-- A field between literals, and one of two bits that has no name. -/
theorem annotated_two_fields :
    let s : Spec := ⟨[.literal 1, .field 1 (some "rd"), .literal 0, .field 2 none]⟩
    (s.layOut none).Compiled ∧
    (s.layOut none).renderAnnotated = "1r0xx (is_set=10000, non_var=10100, specificity=2)" := by
  intro s
  have h : (s.layOut none).Compiled := ⟨none, s, by decide⟩
  refine ⟨h, (annotated_digit_by_digit h).1.trans ?_⟩
  decide

end Pattern
end WordPattern
