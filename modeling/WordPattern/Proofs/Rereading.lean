/-
What can be told of a pattern from its rendering. That may forget where one field
ends, and most of a field's name, but no literal; so read as a text it stands
for a pattern with the same masks, unless a letter comes back after its block.
-/
import WordPattern.Proofs.Digits
import WordPattern.Proofs.Offences
import WordPattern.Proofs.RoundTrip

namespace WordPattern

open Word (size)

/-! ## Patterns with one rendering -/

namespace Pattern

variable {p q : Pattern} {pos : Nat}

/-- The same literals in the same places. -/
structure SameLiterals (p q : Pattern) : Prop where
  length : p.length = q.length
  setMask : p.setMask = q.setMask
  fixedMask : p.fixedMask = q.fixedMask
  specificity : p.specificity = q.specificity

theorem SameLiterals.accepts_eq (h : SameLiterals p q) (w : Word) : p.accepts w = q.accepts w := by
  rw [accepts, accepts, h.setMask, h.fixedMask]

theorem symbolAt_eq_of_symbols_eq (h : p.symbols = q.symbols) (hlength : p.length = q.length)
    (hpos : pos < p.length) : p.symbolAt pos = q.symbolAt pos := by
  have hp := getElem?_symbols (p := p) (i := p.length - 1 - pos) (by omega)
  have hq := getElem?_symbols (p := q) (i := q.length - 1 - pos) (by omega)
  rw [← hlength, ← h, hp, Option.some.injEq] at hq
  have hback : p.length - 1 - (p.length - 1 - pos) = pos := by omega
  rwa [hback] at hq

/-- **The rendering settles the literals.** -/
theorem Compiled.sameLiterals (hp : p.Compiled) (hq : q.Compiled) (h : p.symbols = q.symbols) :
    SameLiterals p q := by
  have hlength : p.length = q.length := by
    rw [← length_symbols, h, length_symbols]
  have hsymbol := fun pos (hpos : pos < p.length) => symbolAt_eq_of_symbols_eq h hlength hpos
  have hset : p.setMask = q.setMask := by
    have hlt := fun i (hi : q.setMask.getBit i = true) => hlength ▸ hq.lt_of_set hi
    refine Word.eq_of_getBit_lt (fun i => hp.lt_of_set) hlt fun i hi => ?_
    rw [← hp.symbolAt_one_iff, ← hq.symbolAt_one_iff, hsymbol i hi]
  have hfixed : p.fixedMask = q.fixedMask := by
    have hlt := fun i (hi : q.fixedMask.getBit i = true) => hlength ▸ hq.lt_of_fixed hi
    refine Word.eq_of_getBit_lt (fun i => hp.lt_of_fixed) hlt fun i hi => ?_
    rw [← symbolAt_digit_iff, ← symbolAt_digit_iff, hsymbol i hi]
  exact ⟨hlength, hset, hfixed, by rw [hp.specificity_eq, hq.specificity_eq, hfixed]⟩

theorem legal_symbols (p : Pattern) : ∀ ch ∈ p.symbols, ch ≠ '_' ∧ Spec.Legal ch := by
  refine List.forall_mem_map.mpr fun pos _ => ?_
  cases h : p.fixedMask.getBit pos with
  | true =>
    rcases symbolAt_digit_iff.mpr h with hdigit | hdigit <;> rw [hdigit]
    · exact ⟨by decide, .inl rfl⟩
    · exact ⟨by decide, .inr (.inl rfl)⟩
  | false =>
    have hletter := isAlpha_symbolAt h
    exact ⟨Spec.isAlpha_ne hletter (by decide), .inr (.inr (.inr hletter))⟩

end Pattern

/-! ## Reading a rendering -/

namespace Spec

variable {s : List Char} {c : Char} {i : Nat} {e : TextError}

/-- `c` stands in two blocks of `s`, with something else between them. -/
def TwoBlocks (s : List Char) (c : Char) : Prop :=
  ∃ i j k : Nat, i < j ∧ j < k ∧ s[i]? = some c ∧ s[j]? ≠ some c ∧ s[k]? = some c

theorem not_contiguous_iff : ¬ Contiguous s c ↔ TwoBlocks s c := by
  constructor
  · intro h
    simp only [Contiguous, not_forall] at h
    obtain ⟨i, j, k, hij, hjk, hi, hk, hj⟩ := h
    have hne : i ≠ j := fun he => hj (he ▸ hi)
    have hne' : j ≠ k := fun he => hj (he ▸ hk)
    exact ⟨i, j, k, by omega, by omega, hi, hj, hk⟩
  · intro ⟨i, j, k, hij, hjk, hi, hj, hk⟩ h
    exact hj (h i j k (Nat.le_of_lt hij) (Nat.le_of_lt hjk) hi hk)

/-- **Characters that stand for the bits of a word** can only be refused for a
letter that comes back. -/
theorem Offence.reused_of_legal (h : Offence s i e) (hlegal : ∀ ch ∈ s, ch ≠ '_' ∧ Legal ch)
    (hlen : s.length ≤ size) : ∃ c, e = .reusedLetter c i ∧ c.isAlpha = true ∧ TwoBlocks s c := by
  have hi := h.lt_length
  have hbits : bitChars (s.take i) = s.take i :=
    bitChars_eq_self fun ch hch => hlegal ch (List.mem_of_mem_take hch)
  cases h with
  | illegal hch hbad => exact absurd (hlegal _ (List.mem_of_getElem? hch)).2 hbad
  | doubled hch _ => exact absurd rfl (hlegal _ (List.mem_of_getElem? hch)).1
  | @tooWide _ c _ _ _ hwide =>
    -- A word is full only behind the last character.
    have hle := trailing_le_length c (s.take i)
    rw [hbits] at hwide
    rw [List.length_take] at hle
    omega
  | @reused _ c x hc halpha hmem hlast hne =>
    refine ⟨c, rfl, halpha, ?_⟩
    obtain ⟨j, htake⟩ := List.mem_iff_getElem?.mp hmem
    obtain ⟨hji, hj⟩ := getElem?_of_take htake
    obtain ⟨k, rfl⟩ : ∃ k, i = k + 1 := ⟨i - 1, by omega⟩
    rw [hbits, getLast?_take_succ (by omega)] at hlast
    have hkc : s[k]? ≠ some c := by
      rw [hlast]
      exact fun h => hne (Option.some.inj h)
    have hjk : j ≠ k := fun he => hkc (he ▸ hj)
    exact ⟨j, k, k + 1, by omega, by omega, hj, hkc, hc⟩

end Spec

namespace Pattern

open Spec

variable {p : Pattern} {spec : Spec} {e : TextError}

theorem Compiled.length_symbols_le (h : p.Compiled) : p.symbols.length ≤ size := by
  rw [length_symbols]
  exact h.length_le

theorem Compiled.bitChars_render (h : p.Compiled) :
    bitChars p.render.toList = p.symbols ∧ p.symbols ≠ [] := by
  rw [render, String.toList_ofList, bitChars_eq_self p.legal_symbols, ← List.length_pos_iff, length_symbols]
  exact ⟨rfl, h.length_pos⟩

theorem Compiled.exists_ofText_render_iff (h : p.Compiled) :
    (∃ spec, Spec.ofText p.render = .ok spec) ↔ ∀ c, c.isAlpha = true → Contiguous p.symbols c := by
  obtain ⟨hbits, hne⟩ := h.bitChars_render
  rw [exists_ofText_iff, hbits, and_iff_left hne, render, String.toList_ofList,
    readable_iff_contiguous p.legal_symbols h.length_symbols_le]

theorem Compiled.exists_compile_of_render (h : p.Compiled) (hspec : Spec.ofText p.render = .ok spec)
    (name : Option String) : ∃ q, spec.compile name = .ok q ∧ q.symbols = p.symbols := by
  obtain ⟨hbits, hne⟩ := h.bitChars_render
  have hreads := reads_of_ofText hspec
  rw [hbits] at hreads
  have hv := hreads.isValid hne h.length_symbols_le
  refine ⟨spec.layOut name, compile_eq_ok_iff.mpr ⟨hv, rfl⟩, ?_⟩
  rw [symbols_layOut name hv, hreads.symbols_eq]

/-- A rendering that cannot be read is refused for a letter that comes back. -/
theorem Compiled.reused_of_render (h : p.Compiled) (he : Spec.ofText p.render = .error e) :
    ∃ c i, e = .reusedLetter c i ∧ c.isAlpha = true ∧ TwoBlocks p.render.toList c := by
  obtain ⟨hbits, hne⟩ := h.bitChars_render
  obtain ⟨i, hfirst⟩ := exists_first_of_ofText_eq_error (by rwa [hbits]) he
  have hhere := hfirst.here
  rw [render, String.toList_ofList] at hhere ⊢
  obtain ⟨c, hc⟩ := hhere.reused_of_legal p.legal_symbols h.length_symbols_le
  exact ⟨c, i, hc⟩

/-- **A rendering settles which words match.** Read as a text it is a spec,
which compiles to a pattern with the same literals, or it is refused for a
letter that stands in two blocks of it, and it is refused whenever there is one.
Compiled patterns with one rendering have the same literals and match the same
words. -/
theorem render_determines_matching :
    (∀ p : Pattern, p.Compiled →
      ((∃ spec, Spec.ofText p.render = .ok spec) ∨
        ∃ c i, Spec.ofText p.render = .error (.reusedLetter c i) ∧
          c.isAlpha = true ∧ TwoBlocks p.render.toList c) ∧
      ((∃ e, Spec.ofText p.render = .error e) ↔ ∃ c, c.isAlpha = true ∧ TwoBlocks p.render.toList c) ∧
      ∀ spec, Spec.ofText p.render = .ok spec →
        ∀ name, ∃ q, spec.compile name = .ok q ∧ SameLiterals q p) ∧
    ∀ p q : Pattern, p.Compiled → q.Compiled → p.render = q.render →
      SameLiterals p q ∧ ∀ w, p.accepts w = q.accepts w := by
  refine ⟨fun p hp => ⟨?_, ?_, fun spec hspec name => ?_⟩, fun p q hp hq h => ?_⟩
  · cases hread : Spec.ofText p.render with
    | ok spec => exact .inl ⟨spec, rfl⟩
    | error e =>
      obtain ⟨c, i, rfl, hc⟩ := hp.reused_of_render hread
      exact .inr ⟨c, i, rfl, hc⟩
  · have hfails : (∃ e, Spec.ofText p.render = .error e) ↔ ¬ ∃ spec, Spec.ofText p.render = .ok spec := by
      cases Spec.ofText p.render <;> simp
    rw [hfails, hp.exists_ofText_render_iff, render, String.toList_ofList]
    simp only [← not_contiguous_iff, not_forall, exists_prop]
  · obtain ⟨q, hq, hsymbols⟩ := hp.exists_compile_of_render hspec name
    exact ⟨q, hq, Compiled.sameLiterals ⟨name, spec, hq⟩ hp hsymbols⟩
  · have hsame := hp.sameLiterals hq (String.ofList_injective h)
    exact ⟨hsame, hsame.accepts_eq⟩

/-- Three fields that are written with one letter come back as one; fields on
both sides of a literal are refused if their names begin alike. -/
theorem render_determines_matching_one_letter :
    let three : Spec := ⟨[.literal 1, .field 2 none, .field 1 (some "x"), .field 3 (some "4")]⟩
    let one : Spec := ⟨[.literal 1, .field 6 (some "x")]⟩
    let around : Spec := ⟨[.field 1 (some "a"), .literal 0, .field 1 (some "ab")]⟩
    let p := three.layOut none
    (p.Compiled ∧ p.render = "1xxxxxx" ∧ Spec.ofText p.render = .ok one ∧
      ∃ q, one.compile (some "q") = .ok q ∧ SameLiterals q p) ∧
    ((one.layOut none).Compiled ∧ p.render = (one.layOut none).render ∧
      ∀ w, p.accepts w = (one.layOut none).accepts w) ∧
    (around.layOut none).Compiled ∧ TwoBlocks (around.layOut none).render.toList 'a' ∧
      ∃ e, Spec.ofText (around.layOut none).render = .error e := by
  intro three one around p
  obtain ⟨hread, hsame⟩ := render_determines_matching
  have hp : p.Compiled := ⟨none, three, by decide⟩
  have hone : (one.layOut none).Compiled := ⟨none, one, by decide⟩
  have haround : (around.layOut none).Compiled := ⟨none, around, by decide⟩
  have hreread : Spec.ofText p.render = .ok one := by decide
  have hrender : p.render = (one.layOut none).render := by decide
  have hblocks : TwoBlocks (around.layOut none).render.toList 'a' :=
    ⟨0, 1, 2, by decide, by decide, by decide, by decide, by decide⟩
  exact ⟨⟨hp, by decide, hreread, (hread p hp).2.2 one hreread _⟩,
    ⟨hone, hrender, (hsame p _ hp hone hrender).2⟩,
    haround, hblocks, (hread _ haround).2.1.mpr ⟨'a', by decide, hblocks⟩⟩

end Pattern
end WordPattern
