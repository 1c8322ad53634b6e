/-
From text to pattern and back. Each part writes the characters that it was read
from. A pattern comes back from its rendering only if that tells all there is to
tell: each name is the one letter written for it, and no two are the same.
-/
import WordPattern.Proofs.Grammar
import WordPattern.Proofs.Meaning
import WordPattern.Proofs.Symbols

namespace WordPattern
namespace Spec

open Word (size)

variable {s : List Char} {ps : List Part} {c : Char}

/-- A name that a text can give to a field. -/
def IsLetter (name : Option String) : Prop :=
  ∃ c : Char, c.isAlpha = true ∧ name = some (String.singleton c)

theorem symbol_singleton (hc : c.isAlpha = true) (width : UInt32) :
    (Part.field width (some (String.singleton c))).symbol = c := by
  simp [Part.symbol, Capture.symbol, hc]

/-! ## Reading what was written -/

theorem bitChars_eq_self (h : ∀ ch ∈ s, ch ≠ '_' ∧ Legal ch) : bitChars s = s :=
  List.filter_eq_self.mpr fun ch hch => decide_eq_true (h ch hch).1

theorem readable_iff_contiguous (h : ∀ ch ∈ s, ch ≠ '_' ∧ Legal ch) (hlen : s.length ≤ size) :
    Readable s ↔ ∀ c, c.isAlpha = true → Contiguous s c := by
  refine ⟨fun hread => ?_, fun hone => ⟨fun ch hch => (h ch hch).2, fun hsep => ?_, ?_⟩⟩
  · have hblocks := hread.blocks
    rw [bitChars_eq_self h] at hblocks
    exact hblocks.contiguous
  · exact (h '_' (hsep.subset List.mem_cons_self)).1 rfl
  · rw [bitChars_eq_self h]
    exact ⟨hone, fun c _ => Nat.le_trans List.count_le_length hlen⟩

/-- Parts write the characters that they are read from. -/
theorem Reads.symbols_eq (h : Reads s ps) : symbols ps = s := by
  induction h with
  | nil => rfl
  | literal hl _ ih =>
    rw [symbols_cons, ih]
    rcases hl with ⟨rfl, rfl⟩ | ⟨rfl, rfl⟩ <;> rfl
  | block hc _ _ _ ih =>
    rw [symbols_cons, ih, symbol_singleton hc]
    rfl

theorem Reads.mem_names_iff (h : Reads s ps) (hc : c.isAlpha = true) :
    some (String.singleton c) ∈ (captures ps).map Capture.name ↔ c ∈ s := by
  induction h with
  | nil => simp [captures]
  | @literal ch _ _ _ hl _ ih =>
    rw [captures, ih, List.mem_cons, or_iff_right (isAlpha_ne hc hl.not_alpha)]
  | block _ hw _ _ ih =>
    rw [captures, List.map_cons, List.mem_cons, ih, List.mem_append, List.mem_replicate,
      Option.some.injEq, String.singleton_inj, and_iff_right (Nat.ne_of_gt hw)]

theorem Reads.isLetter_names (h : Reads s ps) : ∀ name ∈ (captures ps).map Capture.name, IsLetter name := by
  induction h with
  | nil => simp [captures]
  | literal _ _ ih => exact ih
  | block hc _ _ _ ih => exact List.forall_mem_cons.mpr ⟨⟨_, hc, rfl⟩, ih⟩

theorem contiguous_append_of_not_mem {u : List Char} (hu : c ∉ u) (h : Contiguous s c) :
    Contiguous (u ++ s) c := by
  have hpos : ∀ {i : Nat}, (u ++ s)[i]? = some c → u.length ≤ i := fun hi => by
    by_contra hlt
    rw [List.getElem?_append_left (Nat.lt_of_not_le hlt)] at hi
    exact hu (List.mem_of_getElem? hi)
  intro i j k hij hjk hi hk
  have hui := hpos hi
  rw [List.getElem?_append_right (by omega)] at hi hk ⊢
  exact h _ _ _ (by omega) (by omega) hi hk

theorem contiguous_block {k : Nat} (h : c ∉ s) : Contiguous (List.replicate k c ++ s) c := by
  intro i j l hij hjl _ hl
  have hlt : l < k := by
    by_contra hle
    rw [List.getElem?_append_right (by simpa using hle)] at hl
    exact h (List.mem_of_getElem? hl)
  rw [List.getElem?_append_left (by rw [List.length_replicate]; omega),
    List.getElem?_replicate_of_lt (by omega)]

/-- No two fields share a letter exactly when each letter has one block. -/
theorem Reads.nodup_names_iff (h : Reads s ps) :
    ((captures ps).map Capture.name).Nodup ↔ ∀ c, c.isAlpha = true → Contiguous s c := by
  induction h with
  | nil => exact iff_of_true .nil fun c _ i j k _ _ hi => by simp at hi
  | @literal ch _ s _ hl _ ih =>
    refine ih.trans ⟨fun h c hc => ?_, fun h c hc => contiguous_of_append (u := [ch]) (h c hc)⟩
    refine contiguous_append_of_not_mem (u := [ch]) ?_ (h c hc)
    rw [List.mem_singleton]
    exact isAlpha_ne hc hl.not_alpha
  | @block x width s ps hx hw hh hrest ih =>
    rw [captures, List.map_cons, List.nodup_cons, hrest.mem_names_iff hx, ih]
    refine ⟨fun hnames c hc => ?_, fun h => ?_⟩
    · obtain ⟨hnot, h⟩ := hnames
      by_cases hcx : c = x
      · subst hcx
        exact contiguous_block hnot
      · refine contiguous_append_of_not_mem (fun hmem => hcx ?_) (h c hc)
        exact List.eq_of_mem_replicate hmem
    · exact ⟨not_mem_of_contiguous hw (h x hx) hh, fun c hc => contiguous_of_append (h c hc)⟩

theorem Reads.legal (h : Reads s ps) : ∀ ch ∈ s, ch ≠ '_' ∧ Legal ch := by
  induction h with
  | nil => simp
  | literal hl _ ih =>
    refine List.forall_mem_cons.mpr ⟨⟨hl.ne_separator, ?_⟩, ih⟩
    rcases hl with ⟨hch, -⟩ | ⟨hch, -⟩
    · exact .inl hch
    · exact .inr (.inl hch)
  | block hc _ _ _ ih =>
    refine List.forall_mem_append.mpr ⟨fun ch hch => ?_, ih⟩
    obtain rfl := List.eq_of_mem_replicate hch
    exact ⟨isAlpha_ne hc (by decide), .inr (.inr (.inr hc))⟩

theorem Reads.bitChars_eq (h : Reads s ps) : bitChars s = s := bitChars_eq_self h.legal

/-- Characters with a reading are the text of its pattern, if each letter has
one block and they fit a word. -/
theorem Reads.ofText_eq {spec : Spec} (h : Reads s spec.parts) (hv : spec.Valid)
    (hone : ∀ c, c.isAlpha = true → Contiguous s c) (name : Option String) :
    Pattern.ofText name (String.ofList s) = .ok (spec.layOut name) := by
  have hlen : s.length ≤ size := by
    rw [← h.widthOf_eq]
    exact hv.fits
  have hread : Readable s := (readable_iff_contiguous h.legal hlen).mpr hone
  obtain ⟨spec', hspec'⟩ : ∃ spec', ofText (String.ofList s) = .ok spec' := by
    rw [exists_ofText_iff, String.toList_ofList, h.bitChars_eq, ne_eq, h.eq_nil_iff]
    exact ⟨hread, hv.nonempty⟩
  have hreads := reads_of_ofText hspec'
  rw [String.toList_ofList, h.bitChars_eq] at hreads
  have hparts : spec' = spec := congrArg Spec.mk (hreads.unique h)
  rw [hparts] at hspec'
  exact Pattern.ofText_eq_ok_iff.mpr ⟨spec, hspec', compile_eq_ok_iff.mpr ⟨hv, rfl⟩⟩

/-! ## Writing what can be read -/

/-- Parts are read back from what they write if their fields are named by
different letters. -/
theorem reads_symbols (hv : ∀ part ∈ ps, part.Valid)
    (hletter : ∀ name ∈ (captures ps).map Capture.name, IsLetter name)
    (hnodup : ((captures ps).map Capture.name).Nodup) : Reads (symbols ps) ps := by
  induction ps with
  | nil => exact .nil
  | cons part rest ih =>
    rw [List.forall_mem_cons] at hv
    rw [symbols_cons]
    cases part with
    | literal bit =>
      refine .literal ?_ (ih hv.2 hletter hnodup)
      rcases hv.1 with rfl | rfl
      · exact .inl ⟨rfl, rfl⟩
      · exact .inr ⟨rfl, rfl⟩
    | field width name =>
      rw [captures, List.map_cons] at hletter hnodup
      rw [List.forall_mem_cons] at hletter
      rw [List.nodup_cons] at hnodup
      obtain ⟨⟨c, hc, rfl⟩, hletter⟩ := hletter
      have hrest := ih hv.2 hletter hnodup.2
      rw [symbol_singleton hc]
      -- Were the next character the same letter, it would be a name after this field's.
      refine .block hc hv.1.width_pos (fun hhead => hnodup.1 ?_) hrest
      exact (hrest.mem_names_iff hc).mpr (List.mem_of_head? hhead)

end Spec

open Spec

/-- **Rendering and reading undo each other where they can.** A text comes back
without its separators. A compiled pattern comes back, but for its own name,
exactly when each field is named by one ASCII letter and no two have the same
name. -/
theorem render_inverse :
    (∀ name text p, Pattern.ofText name text = .ok p →
      p.render = String.ofList (bitChars text.toList)) ∧
    ∀ p : Pattern, p.Compiled →
      (Pattern.ofText none p.render = .ok { p with name := none } ↔
        (∀ c ∈ p.captures, ∃ ch : Char, ch.isAlpha = true ∧ c.name = some (String.singleton ch)) ∧
        p.names.Nodup) := by
  refine ⟨fun name text p hp => ?_, fun p hp => ?_⟩
  · obtain ⟨spec, hspec, hcompile⟩ := Pattern.ofText_eq_ok_iff.mp hp
    obtain ⟨hv, rfl⟩ := compile_eq_ok_iff.mp hcompile
    rw [Pattern.render, symbols_layOut name hv, (reads_of_ofText hspec).symbols_eq]
  · obtain ⟨name, s, hs⟩ := hp
    obtain ⟨hv, rfl⟩ := compile_eq_ok_iff.mp hs
    rw [Pattern.render, symbols_layOut name hv]
    refine ⟨fun h => ?_, fun hnames => ?_⟩
    · obtain ⟨spec, hspec, hcompile⟩ := Pattern.ofText_eq_ok_iff.mp h
      have hreads := reads_of_ofText hspec
      have hblocks := (exists_ofText_iff.mp ⟨spec, hspec⟩).1.blocks
      -- The captures are those of what was read back.
      have hcaptures : captures spec.parts = captures s.parts :=
        congrArg Pattern.captures (compile_eq_ok_iff.mp hcompile).2
      have hletter := hreads.isLetter_names
      have hnodup := hreads.nodup_names_iff.mpr hblocks.contiguous
      rw [hcaptures] at hletter hnodup
      exact ⟨fun c hc => hletter _ (List.mem_map_of_mem hc), hnodup⟩
    · obtain ⟨hletter, hnodup⟩ := hnames
      have hreads := reads_symbols hv.parts (List.forall_mem_map.mpr hletter) hnodup
      exact hreads.ofText_eq hv (hreads.nodup_names_iff.mp hnodup) none

/-- A text with separators, and two fields around a literal of which one has a
longer name. -/
theorem render_inverse_separators :
    let read : Spec := ⟨[.literal 1, .literal 0, .field 2 (some "r")]⟩
    let around : Spec := ⟨[.field 1 (some "a"), .literal 0, .field 1 (some "ab")]⟩
    Pattern.ofText (some "load") "1_0r_r" = .ok (read.layOut (some "load")) ∧
      (read.layOut (some "load")).render = "10rr" ∧
      Pattern.ofText none (read.layOut (some "load")).render = .ok (read.layOut none) ∧
      (around.layOut none).Compiled ∧ (around.layOut none).render = "a0a" ∧
      Pattern.ofText none (around.layOut none).render ≠ .ok (around.layOut none) := by
  intro read around
  obtain ⟨hrender, hreread⟩ := render_inverse
  have hread : Pattern.ofText (some "load") "1_0r_r" = .ok (read.layOut (some "load")) := by decide
  have hcompiled : (read.layOut (some "load")).Compiled := ⟨some "load", read, by decide⟩
  have haround : (around.layOut none).Compiled := ⟨none, around, by decide⟩
  refine ⟨hread, (hrender _ _ _ hread).trans (by decide), (hreread _ hcompiled).mpr ⟨?_, by decide⟩, haround,
    by decide, fun h => ?_⟩
  · intro c hc
    obtain rfl := List.mem_singleton.mp hc
    exact ⟨'r', by decide, by decide⟩
  · obtain ⟨ch, -, hname⟩ := ((hreread _ haround).mp h).1 ⟨some "ab", 0, 1⟩ (by decide)
    have hlength : "ab".length = (String.singleton ch).length := congrArg String.length (Option.some.inj hname)
    rw [String.length_singleton] at hlength
    exact absurd hlength (by decide)

end WordPattern
