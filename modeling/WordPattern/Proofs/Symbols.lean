/-
A pattern's text, part by part. Rendering goes bit by bit and looks each bit up
in the masks; what comes of it is that each part writes its symbol, `Part.Shows`,
as often as it is wide, `symbols_layOut`.
-/
import WordPattern.Pattern.Render
import WordPattern.Proofs.Tiling

namespace WordPattern

/-- The character for each bit of a part. -/
def Part.symbol : Part → Char
  | .literal bit => if bit = 1 then '1' else '0'
  | .field width name => Capture.symbol ⟨name, 0, width.toNat⟩

namespace Spec

open Word (size)

/-- The characters for the bits of `ps`, the most significant first. -/
def symbols (ps : List Part) : List Char := ps.flatMap fun part => List.replicate part.width part.symbol

theorem symbols_cons (part : Part) (rest : List Part) :
    symbols (part :: rest) = List.replicate part.width part.symbol ++ symbols rest := List.flatMap_cons

theorem symbolAt_layOut (name : Option String) (ps : List Part) (pos : Nat) :
    (layOut name ⟨ps⟩).symbolAt pos =
      if (fixedMask ps).getBit pos then (if (setMask ps).getBit pos then '1' else '0')
      else (((captures ps).find? (·.covers pos)).map Capture.symbol).getD 'x' := rfl

variable {part : Part} {rest : List Part}

theorem symbolAt_of_lt (name : Option String) (hv : part.Valid) (h : widthOf (part :: rest) ≤ size)
    {pos : Nat} (hpos : pos < widthOf rest) :
    (layOut name ⟨part :: rest⟩).symbolAt pos = (layOut name ⟨rest⟩).symbolAt pos := by
  rw [symbolAt_layOut, symbolAt_layOut]
  cases part with
  | literal bit =>
    rw [getBit_fixedMask_literal h, getBit_setMask_literal h, decide_eq_false (Nat.ne_of_lt hpos),
      Bool.and_false, Bool.or_false, Bool.or_false]
    rfl
  | field width fieldName =>
    have hw : 0 < width.toNat := hv.width_pos
    have hnot : Capture.covers ⟨fieldName, widthOf rest + width.toNat - 1, width.toNat⟩ pos = false := by
      rw [Capture.covers_above _ hw]
      exact decide_eq_false (by omega)
    rw [captures, List.find?_cons_of_neg (by rw [hnot]; exact Bool.false_ne_true), fixedMask, setMask]

theorem symbolAt_add (name : Option String) (hv : part.Valid) (h : widthOf (part :: rest) ≤ size) {j : Nat}
    (hj : j < part.width) : (layOut name ⟨part :: rest⟩).symbolAt (widthOf rest + j) = part.symbol := by
  have hrest := widthOf_le_of_cons h
  rw [symbolAt_layOut]
  cases part with
  | literal bit =>
    obtain rfl : j = 0 := Nat.lt_one_iff.mp hj
    have hset : (setMask rest).getBit (widthOf rest) = false := getBit_setMask_of_le hrest (Nat.le_refl _)
    simp [getBit_fixedMask_literal h, getBit_setMask_literal h, hset, Part.symbol]
  | field width fieldName =>
    have hw : 0 < width.toNat := hv.width_pos
    have hlt : j < width.toNat := hj
    have hfix : (fixedMask rest).getBit (widthOf rest + j) = false :=
      getBit_fixedMask_of_le hrest (Nat.le_add_right _ _)
    have hcovers : Capture.covers ⟨fieldName, widthOf rest + width.toNat - 1, width.toNat⟩
        (widthOf rest + j) = true := by
      rw [Capture.covers_above _ hw]
      exact decide_eq_true (by omega)
    simp only [fixedMask, hfix, captures, List.find?_cons, hcovers, Option.map_some, Option.getD_some,
      Bool.false_eq_true, ↓reduceIte]
    rfl

theorem symbols_layOut_parts (name : Option String) {ps : List Part} (hv : ∀ part ∈ ps, part.Valid)
    (h : widthOf ps ≤ size) : (layOut name ⟨ps⟩).symbols = symbols ps := by
  induction ps with
  | nil => rfl
  | cons part rest ih =>
    rw [List.forall_mem_cons] at hv
    have hrest := widthOf_le_of_cons h
    have htop : ((List.range part.width).map (widthOf rest + ·)).reverse.map
        (layOut name ⟨part :: rest⟩).symbolAt = List.replicate part.width part.symbol := by
      refine List.eq_replicate_iff.mpr ⟨by simp, fun ch hch => ?_⟩
      simp only [List.mem_map, List.mem_reverse, List.mem_range] at hch
      obtain ⟨_, ⟨j, hj, rfl⟩, rfl⟩ := hch
      exact symbolAt_add name hv.1 h hj
    have hbelow : (List.range (widthOf rest)).reverse.map (layOut name ⟨part :: rest⟩).symbolAt =
        (layOut name ⟨rest⟩).symbols := by
      refine List.map_congr_left fun pos hpos => ?_
      rw [List.mem_reverse, List.mem_range] at hpos
      exact symbolAt_of_lt name hv.1 h hpos
    have hlength : (layOut name ⟨part :: rest⟩).length = widthOf rest + part.width := Nat.add_comm _ _
    rw [Pattern.symbols, hlength, List.range_add, List.reverse_append, List.map_append, htop, hbelow,
      ih hv.2 hrest, symbols_cons]

/-- **A pattern is rendered part by part.** -/
theorem symbols_layOut {s : Spec} (name : Option String) (h : s.Valid) :
    (s.layOut name).symbols = symbols s.parts := symbols_layOut_parts name h.parts h.fits

end Spec

/-! ## The symbol of a part -/

/-- `ch` stands for the bits of a part: a literal's digit, and for a field the
first character of its name, or `x` when that is no letter. -/
inductive Part.Shows : Part → Char → Prop
  | zero : Shows (.literal 0) '0'
  | one : Shows (.literal 1) '1'
  | letter {width name ch rest} :
      name.toList = ch :: rest → ch.isAlpha = true → Shows (.field width (some name)) ch
  | noLetter {width name ch rest} :
      name.toList = ch :: rest → ch.isAlpha = false → Shows (.field width (some name)) 'x'
  | noCharacter {width} : Shows (.field width (some "")) 'x'
  | noName {width} : Shows (.field width none) 'x'

theorem Part.Shows.symbol_eq {part : Part} {ch : Char} (h : part.Shows ch) : part.symbol = ch := by
  cases h with
  | zero => rfl
  | one => rfl
  | letter hname hletter => simp [Part.symbol, Capture.symbol, hname, hletter]
  | noLetter hname hletter => simp [Part.symbol, Capture.symbol, hname, hletter]
  | noCharacter => rfl
  | noName => rfl

theorem Part.Valid.shows_symbol {part : Part} (h : part.Valid) : part.Shows part.symbol := by
  cases part with
  | literal bit =>
    rcases h with rfl | rfl
    · exact .zero
    · exact .one
  | field width name =>
    cases name with
    | none => exact .noName
    | some name =>
      cases hname : name.toList with
      | nil =>
        obtain rfl : name = "" := String.toList_eq_nil_iff.mp hname
        exact .noCharacter
      | cons ch rest =>
        cases hletter : ch.isAlpha with
        | true => simpa [Part.symbol, Capture.symbol, hname, hletter] using Part.Shows.letter hname hletter
        | false => simpa [Part.symbol, Capture.symbol, hname, hletter] using Part.Shows.noLetter hname hletter

theorem Part.Valid.shows_iff {part : Part} (h : part.Valid) {ch : Char} : part.Shows ch ↔ part.symbol = ch :=
  ⟨Part.Shows.symbol_eq, fun hch => hch ▸ h.shows_symbol⟩

namespace Spec

/-- **Rendering from the masks is rendering the parts.** The text of a compiled
pattern puts the parts of its spec side by side, each as its one symbol, as
often as it is wide; so there is a character for each bit. -/
theorem render_part_by_part {name : Option String} {s : Spec} {p : Pattern} (h : s.compile name = .ok p) :
    p.render.toList = s.parts.flatMap (fun part => List.replicate part.width part.symbol) ∧
    (∀ part ∈ s.parts, ∀ ch, part.Shows ch ↔ part.symbol = ch) ∧
    p.render.length = p.length := by
  obtain ⟨hv, rfl⟩ := compile_eq_ok_iff.mp h
  refine ⟨?_, fun part hpart ch => (hv.parts part hpart).shows_iff, Pattern.length_render _⟩
  rw [Pattern.render, String.toList_ofList, symbols_layOut name hv]
  rfl

/-- Fields with an empty name, a name that starts with no letter, none, and two
with one name. -/
theorem render_odd_names :
    let s : Spec := ⟨[.field 2 (some ""), .literal 1, .field 1 (some "0q"), .field 2 none, .field 1 (some "rd"),
      .literal 0, .field 2 (some "rd")]⟩
    s.compile none = .ok (s.layOut none) ∧ (s.layOut none).render.toList = "xx1xxxr0rr".toList := by
  intro s
  have h : s.compile none = .ok (s.layOut none) := by decide
  exact ⟨h, (render_part_by_part h).1.trans (by decide)⟩

end Spec
end WordPattern
