/-
Texts, the conditions on them, and the parts they are read as. `ReadTo` says what
the reader's state knows of the text so far, `offence?` what is wrong with the
next character, and `read_spec` that the reader refuses exactly the offending
ones.
-/
import Mathlib.Data.List.Induction
import WordPattern.Spec.Text

namespace WordPattern
namespace Spec

open Word (size)

/-! ## Conditions on texts -/

/-- The characters of a text that stand for a bit. -/
def bitChars (text : List Char) : List Char := text.filter fun ch => ch ≠ '_'

/-- A character that a text may hold. -/
def Legal (ch : Char) : Prop := ch = '0' ∨ ch = '1' ∨ ch = '_' ∨ ch.isAlpha = true

/-- Nothing else stands between two `c`s. -/
def Contiguous (s : List Char) (c : Char) : Prop :=
  ∀ i j k : Nat, i ≤ j → j ≤ k → s[i]? = some c → s[k]? = some c → s[j]? = some c

/-- Each letter has one block, and that fits a word. -/
structure Blocks (s : List Char) : Prop where
  contiguous : ∀ c, c.isAlpha = true → Contiguous s c
  narrow : ∀ c, c.isAlpha = true → s.count c ≤ size

/-- A text that the reader goes through. -/
structure Readable (text : List Char) : Prop where
  legal : ∀ ch ∈ text, Legal ch
  separators : ¬ ['_', '_'] <:+: text
  blocks : Blocks (bitChars text)

/-- `ch` is how the literal `bit` is written. -/
def IsLiteral (ch : Char) (bit : UInt8) : Prop := ch = '0' ∧ bit = 0 ∨ ch = '1' ∧ bit = 1

/-- The characters `s` read from left to right, as literals and as blocks of
one letter that are as long as they can be. -/
inductive Reads : List Char → List Part → Prop where
  | nil : Reads [] []
  | literal {ch bit s ps} : IsLiteral ch bit → Reads s ps → Reads (ch :: s) (.literal bit :: ps)
  | block {c : Char} {width : UInt32} {s ps} : c.isAlpha = true → 0 < width.toNat → s.head? ≠ some c →
      Reads s ps →
      Reads (List.replicate width.toNat c ++ s) (.field width (some (String.singleton c)) :: ps)

/-- How many `c`s the characters `s` end with. -/
def trailing (c : Char) (s : List Char) : Nat := (s.reverse.takeWhile (· == c)).length

/-- What is wrong with the letter `ch` at position `index`, after the text
`before`. -/
def letterOffence? (before : List Char) (index : Nat) (ch : Char) : Option TextError :=
  if (bitChars before).getLast? = some ch then
    if size ≤ trailing ch (bitChars before) then some (.fieldTooWide ch index size) else none
  else if ch ∈ bitChars before then some (.reusedLetter ch index)
  else none

/-- What is wrong with `ch` at position `index`, after the text `before`. -/
def offence? (before : List Char) (index : Nat) (ch : Char) : Option TextError :=
  if ch = '0' ∨ ch = '1' then none
  else if ch = '_' then
    if before.getLast? = some '_' then some (.repeatedSeparator index) else none
  else if ch.isAlpha then letterOffence? before index ch
  else some (.invalidCharacter ch index)

theorem bitChars_append_separator (t : List Char) : bitChars (t ++ ['_']) = bitChars t := by
  simp [bitChars]

theorem bitChars_append {ch : Char} (h : ch ≠ '_') (t : List Char) :
    bitChars (t ++ [ch]) = bitChars t ++ [ch] := by
  simp [bitChars, h]

theorem trailing_le_length (c : Char) (s : List Char) : trailing c s ≤ s.length := by
  have h := (List.takeWhile_sublist (l := s.reverse) (· == c)).length_le
  rwa [List.length_reverse] at h

theorem trailing_append_self (c : Char) (s : List Char) : trailing c (s ++ [c]) = trailing c s + 1 := by
  simp [trailing]

theorem trailing_append_other {c x : Char} (h : x ≠ c) (s : List Char) : trailing c (s ++ [x]) = 0 := by
  simp [trailing, h]

theorem trailing_eq_zero {c : Char} {s : List Char} (h : s.getLast? ≠ some c) : trailing c s = 0 := by
  rcases List.eq_nil_or_concat s with rfl | ⟨s, x, rfl⟩
  · rfl
  · rw [List.concat_eq_append] at h ⊢
    rw [List.getLast?_concat] at h
    exact trailing_append_other (fun hx => h (congrArg some hx)) s

theorem isAlpha_ne {c x : Char} (hc : c.isAlpha = true) (hx : x.isAlpha = false) : c ≠ x := by
  intro h
  rw [h, hx] at hc
  cases hc

theorem IsLiteral.not_alpha {ch : Char} {bit : UInt8} (h : IsLiteral ch bit) : ch.isAlpha = false := by
  rcases h with ⟨rfl, -⟩ | ⟨rfl, -⟩ <;> decide

theorem IsLiteral.ne_separator {ch : Char} {bit : UInt8} (h : IsLiteral ch bit) : ch ≠ '_' := by
  rcases h with ⟨rfl, -⟩ | ⟨rfl, -⟩ <;> decide

/-! ## One character more -/

variable {s : List Char} {ps : List Part} {c : Char}

theorem Reads.append_literal {ch : Char} {bit : UInt8} (h : Reads s ps) (hl : IsLiteral ch bit) :
    Reads (s ++ [ch]) (ps ++ [.literal bit]) := by
  induction h with
  | nil => exact .literal hl .nil
  | literal hl' _ ih => exact .literal hl' ih
  | @block c width s ps ha hw hh _ ih =>
    rw [List.append_assoc]
    refine .block ha hw ?_ ih
    cases s with
    | nil =>
      have hne : c ≠ ch := isAlpha_ne ha hl.not_alpha
      simpa using hne.symm
    | cons x s => exact hh

theorem getLast?_ne_of_cons {x : Char} (h : (x :: s).getLast? ≠ some c) : s.getLast? ≠ some c := by
  cases s with
  | nil => simp
  | cons y s => simpa using h

theorem getLast?_ne_of_append {u : List Char} (h : (u ++ s).getLast? ≠ some c) : s.getLast? ≠ some c := by
  intro hs
  simp [List.getLast?_append, hs] at h

theorem Reads.append_new (h : Reads s ps) (hc : c.isAlpha = true) (hl : s.getLast? ≠ some c) :
    Reads (s ++ [c]) (ps ++ [.field 1 (some (String.singleton c))]) := by
  induction h with
  | nil => exact @Reads.block c 1 [] [] hc (by decide) (by simp) .nil
  | literal hlit _ ih => exact .literal hlit (ih (getLast?_ne_of_cons hl))
  | @block x width s ps ha hw hh _ ih =>
    rw [List.append_assoc]
    refine .block ha hw ?_ (ih (getLast?_ne_of_append hl))
    cases s with
    | nil =>
      rw [List.append_nil, List.getLast?_replicate, if_neg (by omega)] at hl
      simpa using fun h => hl (congrArg some h.symm)
    | cons y s => exact hh

theorem Reads.eq_nil_iff (h : Reads s ps) : s = [] ↔ ps = [] := by
  cases h with
  | nil => exact iff_of_true rfl rfl
  | literal _ _ => simp
  | @block x width s _ _ hw _ _ =>
    refine iff_of_false (fun h => ?_) (by simp)
    rw [List.append_eq_nil_iff, List.replicate_eq_nil_iff] at h
    omega

theorem Reads.append_same {width width' : UInt32}
    (h : Reads s (ps ++ [.field width (some (String.singleton c))]))
    (hw' : width'.toNat = width.toNat + 1) :
    Reads (s ++ [c]) (ps ++ [.field width' (some (String.singleton c))]) := by
  generalize hqs : ps ++ [.field width (some (String.singleton c))] = qs at h
  induction h generalizing ps with
  | nil => simp at hqs
  | literal hl _ ih =>
    cases ps with
    | nil => simp at hqs
    | cons part ps =>
      rw [List.cons_append, List.cons.injEq] at hqs
      obtain ⟨rfl, hqs⟩ := hqs
      exact .literal hl (ih hqs)
  | @block x width s qs ha hw hh hrest ih =>
    cases ps with
    | nil =>
      rw [List.nil_append, List.cons.injEq, Part.field.injEq, Option.some.injEq] at hqs
      obtain ⟨⟨rfl, hname⟩, rfl⟩ := hqs
      obtain rfl := String.singleton_inj.mp hname
      -- The block that grows is the last one.
      cases hrest
      have hnew := @Reads.block c width' [] [] ha (by omega) hh .nil
      rw [hw', List.replicate_succ', List.append_nil] at hnew
      rwa [List.append_nil]
    | cons part ps =>
      rw [List.cons_append, List.cons.injEq] at hqs
      obtain ⟨rfl, hqs⟩ := hqs
      have hne : s ≠ [] := fun h => by simp [hrest.eq_nil_iff.mp h] at hqs
      rw [List.append_assoc]
      refine .block ha hw ?_ (ih hqs)
      cases s with
      | nil => exact absurd rfl hne
      | cons y s => exact hh

/-! ## What the reader knows -/

/-- The run that the characters `s` leave open. -/
def openRun (s : List Char) : Option Run :=
  match s.getLast? with
  | some c => if c.isAlpha then some ⟨c, trailing c s⟩ else none
  | none => none

theorem openRun_of_getLast? {s : List Char} {c : Char} (h : s.getLast? = some c)
    (hc : c.isAlpha = true) : openRun s = some ⟨c, trailing c s⟩ := by
  simp only [openRun, h, hc, ↓reduceIte]

theorem getLast?_of_openRun {s : List Char} {run : Run} (h : openRun s = some run) :
    s.getLast? = some run.letter := by
  unfold openRun at h
  split at h
  · next c hc =>
    split at h
    · obtain rfl := Option.some.inj h
      exact hc
    · cases h
  · cases h

theorem openRun_append (s : List Char) (c : Char) :
    openRun (s ++ [c]) = if c.isAlpha then some ⟨c, trailing c s + 1⟩ else none := by
  simp [openRun, trailing_append_self]

/-- The state of the reader after the text `t`. -/
structure ReadTo (t : List Char) (p : Progress) : Prop where
  parts : Reads (bitChars t) p.close.reverse
  run : p.run = openRun (bitChars t)
  narrow : ∀ run, p.run = some run → run.width ≤ size
  letters : ∀ c, c ∈ p.letters ↔ c.isAlpha = true ∧ c ∈ bitChars t
  separated : p.separated = decide (t.getLast? = some '_')

variable {t : List Char} {p p' : Progress} {index : Nat} {ch : Char}

theorem ReadTo.start : ReadTo [] .start :=
  ⟨.nil, rfl, fun _ h => by simp [Progress.start] at h, fun c => by simp [Progress.start, bitChars], rfl⟩

theorem ReadTo.readLiteral {bit : UInt8} (h : ReadTo t p) (hl : IsLiteral ch bit) :
    ReadTo (t ++ [ch]) (p.readLiteral bit) := by
  have hsep := hl.ne_separator
  have halpha := hl.not_alpha
  constructor
  · rw [bitChars_append hsep]
    simpa [Progress.close, Progress.readLiteral] using h.parts.append_literal hl
  · rw [bitChars_append hsep, openRun_append, halpha]
    rfl
  · intro run hrun
    cases hrun
  · intro c
    have hne : c.isAlpha = true → c ≠ ch := fun hc => isAlpha_ne hc halpha
    rw [bitChars_append hsep, List.mem_append, List.mem_singleton]
    simp only [Progress.readLiteral, h.letters]
    exact ⟨fun ⟨hc, hm⟩ => ⟨hc, .inl hm⟩, fun ⟨hc, hm⟩ => ⟨hc, hm.resolve_right (hne hc)⟩⟩
  · simp [Progress.readLiteral, hsep]

theorem ReadTo.readSeparator (h : ReadTo t p) : ReadTo (t ++ ['_']) { p with separated := true } := by
  constructor
  · rw [bitChars_append_separator]
    exact h.parts
  · rw [bitChars_append_separator]
    exact h.run
  · exact h.narrow
  · intro c
    rw [bitChars_append_separator]
    exact h.letters c
  · simp

theorem ReadTo.letters_append (h : ReadTo t p) (ha : ch.isAlpha = true) (c : Char) :
    c = ch ∨ c ∈ p.letters ↔ c.isAlpha = true ∧ c ∈ bitChars t ++ [ch] := by
  rw [h.letters, List.mem_append, List.mem_singleton]
  refine ⟨fun hm => ?_, fun ⟨hc, hm⟩ => ?_⟩
  · rcases hm with rfl | ⟨hc, hm⟩
    · exact ⟨ha, .inr rfl⟩
    · exact ⟨hc, .inl hm⟩
  · rcases hm with hm | rfl
    · exact .inr ⟨hc, hm⟩
    · exact .inl rfl

theorem ReadTo.startRun (h : ReadTo t p) (ha : ch.isAlpha = true)
    (hl : (bitChars t).getLast? ≠ some ch) :
    ReadTo (t ++ [ch]) ⟨p.close, some ⟨ch, 1⟩, ch :: p.letters, false⟩ := by
  have hsep : ch ≠ '_' := isAlpha_ne ha (by decide)
  constructor
  · rw [bitChars_append hsep]
    simpa [Progress.close, Run.part] using h.parts.append_new ha hl
  · rw [bitChars_append hsep, openRun_append, if_pos ha, trailing_eq_zero hl]
  · intro run hrun
    obtain rfl := Option.some.inj hrun
    exact Nat.succ_le_of_lt (by decide)
  · intro c
    rw [bitChars_append hsep, List.mem_cons, h.letters_append ha]
  · simp [hsep]

theorem ReadTo.widenRun (h : ReadTo t p) (run : Run) (ha : run.letter.isAlpha = true)
    (hr : p.run = some run) (hl : (bitChars t).getLast? = some run.letter) (hw : run.width < size) :
    ReadTo (t ++ [run.letter])
      { p with run := some { run with width := run.width + 1 }, separated := false } := by
  have hsep : run.letter ≠ '_' := isAlpha_ne ha (by decide)
  have hrun : run = ⟨run.letter, trailing run.letter (bitChars t)⟩ := by
    rw [h.run, openRun_of_getLast? hl ha] at hr
    exact (Option.some.inj hr).symm
  have hwidth : run.width = trailing run.letter (bitChars t) := congrArg Run.width hrun
  have hmem : run.letter ∈ bitChars t := List.mem_of_getLast? hl
  constructor
  · rw [bitChars_append hsep]
    have hparts := h.parts
    simp only [Progress.close, hr, Option.map_some, Option.toList_some, List.singleton_append,
      List.reverse_cons, Run.part] at hparts ⊢
    refine hparts.append_same ?_
    simp only [size] at hw
    rw [UInt32.toNat_ofNat', UInt32.toNat_ofNat', Nat.mod_eq_of_lt (by omega),
      Nat.mod_eq_of_lt (by omega)]
  · rw [bitChars_append hsep, openRun_append, if_pos ha, hwidth]
  · intro run' hrun'
    obtain rfl := Option.some.inj hrun'
    exact hw
  · intro c
    rw [bitChars_append hsep, ← h.letters_append ha, h.letters]
    exact ⟨.inr, fun hc => hc.elim (fun he => he ▸ ⟨ha, hmem⟩) id⟩
  · simp [hsep]

/-- A letter widens the open run only if the last bit is that letter's. -/
theorem ReadTo.readLetter_eq_startRun (h : ReadTo t p) (hl : (bitChars t).getLast? ≠ some ch) :
    p.readLetter index ch = p.startRun index ch := by
  unfold Progress.readLetter
  cases hr : p.run with
  | none => rfl
  | some run =>
    have hlast := getLast?_of_openRun (h.run.symm.trans hr)
    have hne : run.letter ≠ ch := fun he => hl (he ▸ hlast)
    simp only [hne, ↓reduceIte]

theorem ReadTo.readLetter_spec (h : ReadTo t p) (index : Nat) (ha : ch.isAlpha = true) :
    match letterOffence? t index ch with
    | some e => p.readLetter index ch = .error e
    | none => ∃ p', p.readLetter index ch = .ok p' ∧ ReadTo (t ++ [ch]) p' := by
  unfold letterOffence?
  by_cases hlast : (bitChars t).getLast? = some ch
  · have hrun := h.run
    rw [openRun_of_getLast? hlast ha] at hrun
    have hnarrow : trailing ch (bitChars t) ≤ size := h.narrow _ hrun
    simp only [hlast, ↓reduceIte, Progress.readLetter, hrun, Progress.widenRun]
    by_cases hw : size ≤ trailing ch (bitChars t)
    · rw [if_pos hw]
      exact if_pos (Nat.le_antisymm hnarrow hw)
    · rw [if_neg hw, if_neg fun he => hw (Nat.le_of_eq he.symm)]
      exact ⟨_, rfl, h.widenRun ⟨ch, _⟩ ha hrun hlast (Nat.lt_of_not_le hw)⟩
  · simp only [hlast, ↓reduceIte, h.readLetter_eq_startRun hlast, Progress.startRun, h.letters, ha,
      true_and]
    by_cases hm : ch ∈ bitChars t
    · simp only [hm, ↓reduceIte]
    · simp only [hm, ↓reduceIte]
      exact ⟨_, rfl, h.startRun ha hlast⟩

/-- **One step of the reader.** It refuses a character for what is wrong with
it after the text read so far, and takes it if nothing is. -/
theorem ReadTo.read_spec (h : ReadTo t p) (index : Nat) (ch : Char) :
    match offence? t index ch with
    | some e => p.read index ch = .error e
    | none => ∃ p', p.read index ch = .ok p' ∧ ReadTo (t ++ [ch]) p' := by
  unfold offence? Progress.read
  by_cases h0 : ch = '0'
  · simp only [h0, ↓reduceIte, true_or]
    exact ⟨_, rfl, h.readLiteral (.inl ⟨rfl, rfl⟩)⟩
  by_cases h1 : ch = '1'
  · simp only [h1, ↓reduceIte, or_true]
    exact ⟨_, rfl, h.readLiteral (.inr ⟨rfl, rfl⟩)⟩
  simp only [h0, h1, ↓reduceIte, or_self]
  by_cases hsep : ch = '_'
  · subst hsep
    simp only [↓reduceIte, Progress.readSeparator, h.separated, decide_eq_true_eq]
    by_cases hlast : t.getLast? = some '_'
    · simp only [hlast, ↓reduceIte]
    · simp only [hlast, ↓reduceIte]
      exact ⟨_, rfl, h.readSeparator⟩
  simp only [hsep, ↓reduceIte]
  by_cases ha : ch.isAlpha = true
  · simp only [ha, ↓reduceIte]
    exact h.readLetter_spec index ha
  · simp only [ha, Bool.false_eq_true, ↓reduceIte]

/-! ## Which texts are read -/

theorem contiguous_append {x : Char} :
    Contiguous (s ++ [x]) c ↔ Contiguous s c ∧ (x = c → c ∈ s → s.getLast? = some c) := by
  have hleft : ∀ {i}, i < s.length → (s ++ [x])[i]? = s[i]? := fun h => List.getElem?_append_left h
  constructor
  · intro h
    refine ⟨fun i j k hij hjk hi hk => ?_, fun hx hm => ?_⟩
    · obtain ⟨hkl, -⟩ := List.getElem?_eq_some_iff.mp hk
      rw [← hleft (by omega)] at hi hk ⊢
      exact h i j k hij hjk hi hk
    · obtain ⟨i, hi⟩ := List.mem_iff_getElem?.mp hm
      obtain ⟨hil, -⟩ := List.getElem?_eq_some_iff.mp hi
      rw [List.getLast?_eq_getElem?, ← hleft (by omega)]
      refine h i (s.length - 1) s.length (by omega) (by omega) ?_ ?_
      · rw [hleft hil, hi]
      · rw [List.getElem?_concat_length, hx]
  · intro ⟨h, hx⟩ i j k hij hjk hi hk
    obtain ⟨hkl, -⟩ := List.getElem?_eq_some_iff.mp hk
    rw [List.length_append, List.length_singleton] at hkl
    rcases Nat.lt_or_ge k s.length with hks | hks
    · rw [hleft (by omega)] at hi hk ⊢
      exact h i j k hij hjk hi hk
    · obtain rfl : k = s.length := by omega
      rcases Nat.lt_or_ge j s.length with hjs | hjs
      · -- An earlier `c` makes the last character before the new one a `c`.
        rw [List.getElem?_concat_length, Option.some.injEq] at hk
        rw [hleft (by omega)] at hi ⊢
        have hlast := hx hk (List.mem_of_getElem? hi)
        rw [List.getLast?_eq_getElem?] at hlast
        exact h i j (s.length - 1) hij (by omega) hi hlast
      · obtain rfl : j = s.length := by omega
        exact hk

theorem trailing_eq_count (h : Contiguous s c) (hm : c ∈ s → s.getLast? = some c) :
    trailing c s = s.count c := by
  induction s using List.reverseRecOn with
  | nil => rfl
  | append_singleton s x ih =>
    obtain ⟨hs, hx⟩ := contiguous_append.mp h
    by_cases he : x = c
    · rw [he, trailing_append_self, List.count_append, List.count_singleton_self, ih hs (hx he)]
    · have hnot : c ∉ s ++ [x] := fun hc => by
        rw [List.getLast?_concat, Option.some.injEq] at hm
        exact he (hm hc)
      rw [trailing_append_other he, List.count_eq_zero_of_not_mem hnot]

theorem double_append_iff (t : List Char) (ch : Char) :
    ['_', '_'] <:+: t ++ [ch] ↔ ['_', '_'] <:+: t ∨ ch = '_' ∧ t.getLast? = some '_' := by
  rw [List.infix_concat_iff, or_comm]
  refine or_congr_right ⟨fun h => ?_, fun ⟨hch, hlast⟩ => ?_⟩
  · obtain ⟨u, hu⟩ := h
    rw [show u ++ ['_', '_'] = (u ++ ['_']) ++ ['_'] by simp] at hu
    obtain ⟨hu, hch⟩ := List.append_inj' hu rfl
    exact ⟨by simpa using hch.symm, by rw [← hu, List.getLast?_concat]⟩
  · obtain ⟨u, hu⟩ := List.getLast?_eq_some_iff.mp hlast
    exact ⟨u, by rw [hu, hch, List.append_assoc, List.singleton_append]⟩

theorem offence?_eq_none_iff :
    offence? t index ch = none ↔
      Legal ch ∧ (ch = '_' → t.getLast? ≠ some '_') ∧
      (ch.isAlpha = true → ch ∈ bitChars t →
        (bitChars t).getLast? = some ch ∧ trailing ch (bitChars t) < size) := by
  unfold offence? letterOffence? Legal
  by_cases hbit : ch = '0' ∨ ch = '1'
  · have halpha : ch.isAlpha = false := by rcases hbit with rfl | rfl <;> decide
    have hsep : ch ≠ '_' := by rcases hbit with rfl | rfl <;> decide
    rw [if_pos hbit]
    exact iff_of_true rfl ⟨by tauto, fun h => absurd h hsep, fun h => by rw [halpha] at h; cases h⟩
  rw [if_neg hbit]
  by_cases hsep : ch = '_'
  · rw [if_pos hsep]
    simp [hsep]
  rw [if_neg hsep]
  by_cases halpha : ch.isAlpha = true
  · by_cases hlast : (bitChars t).getLast? = some ch
    · simp [hsep, halpha, hlast, List.mem_of_getLast? hlast]
    · simp [hsep, halpha, hlast]
  · simp [hbit, hsep, halpha]

theorem blocks_append_iff :
    Blocks (s ++ [ch]) ↔
      Blocks s ∧ (ch.isAlpha = true → ch ∈ s → s.getLast? = some ch ∧ trailing ch s < size) := by
  constructor
  · intro h
    have hs : Blocks s := ⟨fun c hc => (contiguous_append.mp (h.contiguous c hc)).1, fun c hc => by
      have := h.narrow c hc
      rw [List.count_append] at this
      omega⟩
    refine ⟨hs, fun ha hm => ?_⟩
    have hlast := (contiguous_append.mp (h.contiguous ch ha)).2 rfl
    have hcount := h.narrow ch ha
    rw [List.count_append, List.count_singleton_self] at hcount
    rw [trailing_eq_count (hs.contiguous ch ha) hlast]
    exact ⟨hlast hm, hcount⟩
  · intro ⟨h, hnew⟩
    refine ⟨fun c hc => contiguous_append.mpr ⟨h.contiguous c hc, fun he hm => ?_⟩, fun c hc => ?_⟩
    · subst he
      exact (hnew hc hm).1
    · rw [List.count_append]
      by_cases he : ch = c
      · subst he
        rw [List.count_singleton_self]
        by_cases hm : ch ∈ s
        · have hwidth := (hnew hc hm).2
          rwa [trailing_eq_count (h.contiguous ch hc) fun hm => (hnew hc hm).1] at hwidth
        · rw [List.count_eq_zero_of_not_mem hm]
          decide
      · have hzero : [ch].count c = 0 := List.count_eq_zero_of_not_mem (by simpa using Ne.symm he)
        rw [hzero]
        exact h.narrow c hc

theorem Readable.nil : Readable [] where
  legal := by simp
  separators := by simp
  blocks := ⟨fun c _ i j k _ _ hi => by simp [bitChars] at hi, fun c _ => by simp [bitChars]⟩

theorem readable_append (index : Nat) : Readable (t ++ [ch]) ↔ Readable t ∧ offence? t index ch = none := by
  have hblocks : Blocks (bitChars (t ++ [ch])) ↔ Blocks (bitChars t) ∧
      (ch.isAlpha = true → ch ∈ bitChars t →
        (bitChars t).getLast? = some ch ∧ trailing ch (bitChars t) < size) := by
    by_cases hsep : ch = '_'
    · rw [hsep, bitChars_append_separator]
      exact (and_iff_left fun h => by cases h).symm
    · rw [bitChars_append hsep, blocks_append_iff]
  have hlegal : (∀ c ∈ t ++ [ch], Legal c) ↔ (∀ c ∈ t, Legal c) ∧ Legal ch := by
    rw [List.forall_mem_append, List.forall_mem_singleton]
  rw [offence?_eq_none_iff]
  constructor
  · intro ⟨hl, hs, hb⟩
    rw [hlegal] at hl
    rw [double_append_iff, not_or, not_and] at hs
    rw [hblocks] at hb
    exact ⟨⟨hl.1, hs.1, hb.1⟩, hl.2, hs.2, hb.2⟩
  · intro ⟨⟨hl, hs, hb⟩, hl', hs', hb'⟩
    refine ⟨hlegal.mpr ⟨hl, hl'⟩, ?_, hblocks.mpr ⟨hb, hb'⟩⟩
    rw [double_append_iff, not_or, not_and]
    exact ⟨hs, hs'⟩

theorem readAll_append_singleton (p : Progress) (index : Nat) (t : List Char) (ch : Char) :
    p.readAll index (t ++ [ch]) =
      match p.readAll index t with
      | .ok p' => p'.read (index + t.length) ch
      | .error e => .error e := by
  rw [Progress.readAll_append]
  cases p.readAll index t with
  | error e => rfl
  | ok p' =>
    simp only [Progress.readAll]
    cases p'.read (index + t.length) ch <;> rfl

/-- What the reader has gone through is readable, and its state is known. -/
theorem readTo_of_readAll (h : Progress.start.readAll 0 t = .ok p) : Readable t ∧ ReadTo t p := by
  -- From the end: `ReadTo` is about the characters before the one that is read.
  induction t using List.reverseRecOn generalizing p with
  | nil =>
    cases h
    exact ⟨.nil, .start⟩
  | append_singleton t ch ih =>
    rw [readAll_append_singleton] at h
    split at h
    · next p₀ h₀ =>
      obtain ⟨hread, hto⟩ := ih h₀
      have hstep := hto.read_spec (0 + t.length) ch
      split at hstep
      · rw [hstep] at h
        cases h
      · next hnone =>
        obtain ⟨p', hp', hto'⟩ := hstep
        obtain rfl := Except.ok.inj (hp'.symm.trans h)
        exact ⟨(readable_append _).mpr ⟨hread, hnone⟩, hto'⟩
    · cases h

/-- The reader goes through a readable text. -/
theorem Readable.exists_readAll (h : Readable t) : ∃ p, Progress.start.readAll 0 t = .ok p := by
  induction t using List.reverseRecOn with
  | nil => exact ⟨_, rfl⟩
  | append_singleton t ch ih =>
    obtain ⟨ht, hnone⟩ := (readable_append (0 + t.length)).mp h
    obtain ⟨p, hp⟩ := ih ht
    have hstep := (readTo_of_readAll hp).2.read_spec (0 + t.length) ch
    rw [hnone] at hstep
    obtain ⟨p', hp', -⟩ := hstep
    refine ⟨p', ?_⟩
    rw [readAll_append_singleton, hp]
    exact hp'

variable {text : String} {spec : Spec}

theorem ofText_eq_ok_iff :
    ofText text = .ok spec ↔
      ∃ p, Progress.start.readAll 0 text.toList = .ok p ∧ p.close ≠ [] ∧ p.close.reverse = spec.parts := by
  cases spec
  unfold ofText
  split
  · next e he => simp [he]
  · next p hp =>
    rw [hp]
    split
    · next hclose => simp [hclose]
    · next hclose => simpa using fun _ => hclose

/-- **A text is read** exactly when it is readable and has a bit. -/
theorem exists_ofText_iff :
    (∃ spec, ofText text = .ok spec) ↔ Readable text.toList ∧ bitChars text.toList ≠ [] := by
  have hclose : ∀ {p}, ReadTo text.toList p → (bitChars text.toList ≠ [] ↔ p.close ≠ []) := fun h => by
    rw [ne_eq, h.parts.eq_nil_iff, List.reverse_eq_nil_iff]
  refine ⟨fun ⟨spec, h⟩ => ?_, fun ⟨hread, hne⟩ => ?_⟩
  · obtain ⟨p, hp, hne, -⟩ := ofText_eq_ok_iff.mp h
    obtain ⟨hread, hto⟩ := readTo_of_readAll hp
    exact ⟨hread, (hclose hto).mpr hne⟩
  · obtain ⟨p, hp⟩ := hread.exists_readAll
    obtain ⟨-, hto⟩ := readTo_of_readAll hp
    exact ⟨⟨p.close.reverse⟩, ofText_eq_ok_iff.mpr ⟨p, hp, (hclose hto).mp hne, rfl⟩⟩

/-- **What a text is read as**: its literals and blocks. -/
theorem reads_of_ofText (h : ofText text = .ok spec) : Reads (bitChars text.toList) spec.parts := by
  obtain ⟨p, hp, -, hparts⟩ := ofText_eq_ok_iff.mp h
  rw [← hparts]
  exact (readTo_of_readAll hp).2.parts

end Spec
end WordPattern
