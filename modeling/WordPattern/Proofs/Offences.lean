/-
Why a text is refused. `Offence` says what is wrong with a character in view of
the text before it; the reader stops at the first one, `readAll_of_first`, and a
text without one is readable, `readable_iff`.
-/
import WordPattern.Proofs.First
import WordPattern.Proofs.Reading

namespace WordPattern
namespace Spec

open Word (size)

/-- What is wrong with a character of a text, at its position. -/
inductive Offence (text : List Char) : Nat → TextError → Prop where
  /-- It is none that a text may hold. -/
  | illegal {i ch} : text[i]? = some ch → ¬ Legal ch → Offence text i (.invalidCharacter ch i)
  /-- It is a separator right after a separator. -/
  | doubled {i} : text[i]? = some '_' → text[i + 1]? = some '_' →
      Offence text (i + 1) (.repeatedSeparator (i + 1))
  /-- It is the letter of the last bit, and as many of that letter as a word
  has bits stand before it in one run. -/
  | tooWide {i c} : text[i]? = some c → c.isAlpha = true → (bitChars (text.take i)).getLast? = some c →
      size ≤ trailing c (bitChars (text.take i)) → Offence text i (.fieldTooWide c i size)
  /-- It is a letter that has come before, and the last bit is another
  character. -/
  | reused {i c x} : text[i]? = some c → c.isAlpha = true → c ∈ text.take i →
      (bitChars (text.take i)).getLast? = some x → x ≠ c → Offence text i (.reusedLetter c i)

variable {t t' : List Char} {i : Nat} {e : TextError} {c : Char}

/-! ## One character -/

theorem offence?_illegal (h : ¬ Legal c) : offence? t i c = some (.invalidCharacter c i) := by
  rw [Legal, not_or, not_or, not_or] at h
  obtain ⟨h0, h1, hsep, halpha⟩ := h
  rw [offence?, if_neg (not_or.mpr ⟨h0, h1⟩), if_neg hsep, if_neg halpha]

theorem offence?_letter (h : c.isAlpha = true) : offence? t i c = letterOffence? t i c := by
  have h0 : c ≠ '0' := isAlpha_ne h (by decide)
  have h1 : c ≠ '1' := isAlpha_ne h (by decide)
  have hsep : c ≠ '_' := isAlpha_ne h (by decide)
  rw [offence?, if_neg (not_or.mpr ⟨h0, h1⟩), if_neg hsep, if_pos h]

theorem getLast?_take_succ (h : i < t.length) : (t.take (i + 1)).getLast? = t[i]? := by
  rw [List.take_add_one, List.getElem?_eq_getElem h, Option.toList_some, List.getLast?_concat]

theorem mem_bitChars_of_isAlpha (h : c.isAlpha = true) : c ∈ bitChars t ↔ c ∈ t := by
  rw [bitChars, List.mem_filter, and_iff_left (decide_eq_true (isAlpha_ne h (by decide)))]

theorem offence_of_separator (h : t[i]? = some '_') (he : offence? (t.take i) i '_' = some e) :
    Offence t i e := by
  have he : (if (t.take i).getLast? = some '_' then some (.repeatedSeparator i) else none) = some e := he
  split at he
  · next hlast =>
    cases he
    cases i with
    | zero => cases hlast
    | succ i =>
      have hi := (List.getElem?_eq_some_iff.mp h).1
      rw [getLast?_take_succ (Nat.lt_of_succ_lt hi)] at hlast
      exact .doubled hlast h
  · cases he

theorem offence_of_letter (h : t[i]? = some c) (halpha : c.isAlpha = true)
    (he : letterOffence? (t.take i) i c = some e) : Offence t i e := by
  rw [letterOffence?] at he
  split at he
  · next hlast =>
    split at he
    · next hwide =>
      cases he
      exact .tooWide h halpha hlast hwide
    · cases he
  · next hlast =>
    split at he
    · next hmem =>
      cases he
      obtain ⟨x, hx⟩ : ∃ x, (bitChars (t.take i)).getLast? = some x :=
        Option.isSome_iff_exists.mp (List.getLast?_isSome.mpr (List.ne_nil_of_mem hmem))
      refine .reused h halpha ((mem_bitChars_of_isAlpha halpha).mp hmem) hx fun hxc => ?_
      rw [hx, hxc] at hlast
      exact hlast rfl
    · cases he

/-- The offences are what the reader refuses characters for. -/
theorem offence_iff : Offence t i e ↔ ∃ c, t[i]? = some c ∧ offence? (t.take i) i c = some e := by
  constructor
  · intro h
    cases h with
    | illegal hc hbad => exact ⟨_, hc, offence?_illegal hbad⟩
    | doubled hprev hc =>
      have hi := (List.getElem?_eq_some_iff.mp hprev).1
      exact ⟨_, hc, if_pos ((getLast?_take_succ hi).trans hprev)⟩
    | tooWide hc halpha hlast hwide =>
      refine ⟨_, hc, ?_⟩
      rw [offence?_letter halpha, letterOffence?, if_pos hlast, if_pos hwide]
    | @reused i c x hc halpha hmem hlast hne =>
      refine ⟨_, hc, ?_⟩
      rw [offence?_letter halpha, letterOffence?, if_neg, if_pos ((mem_bitChars_of_isAlpha halpha).mpr hmem)]
      rw [hlast]
      exact fun h => hne (Option.some.inj h)
  · intro ⟨c, hc, he⟩
    by_cases hlegal : Legal c
    · rcases hlegal with rfl | rfl | rfl | halpha
      · cases he
      · cases he
      · exact offence_of_separator hc he
      · rw [offence?_letter halpha] at he
        exact offence_of_letter hc halpha he
    · rw [offence?_illegal hlegal] at he
      cases he
      exact .illegal hc hlegal

/-! ## The first offence -/

theorem offence_congr (h : t.take (i + 1) = t'.take (i + 1)) {j : Nat} (hj : j ≤ i) :
    Offence t j e ↔ Offence t' j e := by
  have hj' : j < i + 1 := Nat.lt_succ_of_le hj
  have hchar : t[j]? = t'[j]? := by
    rw [← List.getElem?_take_of_lt hj', h, List.getElem?_take_of_lt hj']
  have hbefore : t.take j = t'.take j := by
    have h' := congrArg (List.take j) h
    rwa [List.take_take, List.take_take, Nat.min_eq_left (Nat.le_of_lt hj')] at h'
  rw [offence_iff, offence_iff, hchar, hbefore]

theorem Offence.lt_length (h : Offence t i e) : i < t.length := by
  obtain ⟨c, hc, -⟩ := offence_iff.mp h
  exact (List.getElem?_eq_some_iff.mp hc).1

theorem offence_append_iff :
    Offence (t ++ [c]) i e ↔ Offence t i e ∨ i = t.length ∧ offence? t i c = some e := by
  rcases Nat.lt_trichotomy i t.length with hi | rfl | hi
  · have htake : (t ++ [c]).take (i + 1) = t.take (i + 1) := List.take_append_of_le_length hi
    rw [offence_congr htake (Nat.le_refl i), or_iff_left fun h => Nat.ne_of_lt hi h.1]
  · rw [or_iff_right fun h => Nat.lt_irrefl _ h.lt_length, and_iff_right rfl, offence_iff,
      List.take_left, List.getElem?_concat_length]
    simp
  · refine iff_of_false (fun h => ?_) (not_or.mpr ⟨fun h => ?_, fun h => Nat.ne_of_gt hi h.1⟩)
    · have := h.lt_length
      rw [List.length_append, List.length_singleton] at this
      omega
    · exact Nat.lt_asymm hi h.lt_length

/-- **A text is readable** exactly when it holds no offence. -/
theorem readable_iff : Readable t ↔ ∀ i e, ¬ Offence t i e := by
  induction t using List.reverseRecOn with
  | nil => exact iff_of_true .nil fun i e h => Nat.not_lt_zero i h.lt_length
  | append_singleton t c ih =>
    rw [readable_append t.length, ih, Option.eq_none_iff_forall_ne_some]
    simp only [offence_append_iff, not_or, not_and]
    exact ⟨fun ⟨ht, hc⟩ i e => ⟨ht i e, fun hi => hi ▸ hc e⟩,
      fun h => ⟨fun i e => (h i e).1, fun e => (h t.length e).2 rfl⟩⟩

/-- **The reader stops at the first offence.** -/
theorem readAll_of_first (h : First (Offence t) i e) : Progress.start.readAll 0 t = .error e := by
  obtain ⟨c, hc, he⟩ := offence_iff.mp h.here
  have hlength := length_take_of_getElem? hc
  have hbefore : Readable (t.take i) := by
    refine readable_iff.mpr fun j e' hj => ?_
    have hji : j < i := hlength ▸ hj.lt_length
    have htake : (t.take i).take (j + 1) = t.take (j + 1) := by
      rw [List.take_take, Nat.min_eq_left hji]
    exact h.earlier j hji e' ((offence_congr htake (Nat.le_refl j)).mp hj)
  obtain ⟨p, hp⟩ := hbefore.exists_readAll
  have hstep := (readTo_of_readAll hp).2.read_spec i c
  rw [he] at hstep
  rw [← take_append_cons_drop hc, Progress.readAll_append, hp]
  simp only [hlength, Nat.zero_add, Progress.readAll]
  rw [hstep]

/-! ## Texts of specs -/

variable {text : String}

theorem ofText_of_first (h : First (Offence text.toList) i e) : ofText text = .error e := by
  rw [ofText, readAll_of_first h]

theorem exists_first_of_ofText_eq_error (hbits : bitChars text.toList ≠ []) (h : ofText text = .error e) :
    ∃ i, First (Offence text.toList) i e := by
  have hoffence : ∃ i e, Offence text.toList i e := by
    by_contra hnone
    simp only [not_exists] at hnone
    obtain ⟨spec, hspec⟩ := exists_ofText_iff.mpr ⟨readable_iff.mpr hnone, hbits⟩
    rw [hspec] at h
    cases h
  obtain ⟨i, e', hfirst⟩ := exists_first hoffence
  obtain rfl := Except.error.inj ((ofText_of_first hfirst).symm.trans h)
  exact ⟨i, hfirst⟩

theorem first_offence_of_take_eq (h : First (Offence t) i e) (htake : t'.take (i + 1) = t.take (i + 1)) :
    First (Offence t') i e where
  here := (offence_congr htake (Nat.le_refl i)).mpr h.here
  earlier j hj e' hw := h.earlier j hj e' ((offence_congr htake (Nat.le_of_lt hj)).mp hw)

theorem bitChars_eq_nil_iff : bitChars t = [] ↔ ∀ ch ∈ t, ch = '_' := by
  simp [bitChars]

theorem ofText_eq_empty (h : Readable text.toList) (hbits : bitChars text.toList = []) :
    ofText text = .error .empty := by
  obtain ⟨p, hp⟩ := h.exists_readAll
  have hclose : p.close = [] := by
    rw [← List.reverse_eq_nil_iff, ← (readTo_of_readAll hp).2.parts.eq_nil_iff, hbits]
  rw [ofText, hp]
  simp only [hclose]

/-- **The first offence is what a text is refused for**, and so is every text
that begins with the same characters, up to and including the offending one.
Without one, a text of separators only is empty, and any other is a spec. -/
theorem ofText_first_offence (text : String) :
    ((∃ i e, Offence text.toList i e) →
      ∃ i e, First (Offence text.toList) i e ∧ ofText text = .error e) ∧
    (∀ i e, First (Offence text.toList) i e → ∀ text' : String,
      text'.toList.take (i + 1) = text.toList.take (i + 1) → ofText text' = .error e) ∧
    ((∀ i e, ¬ Offence text.toList i e) →
      ((∀ ch ∈ text.toList, ch = '_') → ofText text = .error .empty) ∧
      ((∃ ch ∈ text.toList, ch ≠ '_') → ∃ spec, ofText text = .ok spec)) := by
  refine ⟨fun h => ?_, fun i e h text' htake => ofText_of_first (first_offence_of_take_eq h htake), fun h => ?_⟩
  · obtain ⟨i, e, hi⟩ := exists_first h
    exact ⟨i, e, hi, ofText_of_first hi⟩
  · have hread := readable_iff.mpr h
    refine ⟨fun hsep => ofText_eq_empty hread (bitChars_eq_nil_iff.mpr hsep), fun ⟨ch, hch, hne⟩ => ?_⟩
    exact exists_ofText_iff.mpr ⟨hread, fun hnil => hne (bitChars_eq_nil_iff.mp hnil ch hch)⟩

/-- The letter comes back before the sign that no text may hold. -/
example : ofText "a_0_a?" = .error (.reusedLetter 'a' 4) := by decide

end Spec
end WordPattern
