/-
What a group owes to the order its patterns came in. Sorting leaves only the
order of ties open, so an untied group is determined by what it holds,
`eq_of_perm_of_untied`, and with ties a word still finds a pattern of the same
specificity, `decode_eq_of_perm`.
-/
import WordPattern.Group.Decoded
import WordPattern.Proofs.Dispatch

namespace WordPattern
namespace Group

variable {g h : Group} {w : Word} {p q : Pattern} {ps : List Pattern}

theorem isTied_eq_false_iff :
    g.isTied = false ↔
      ∀ p ∈ g.patterns, ∀ q ∈ g.patterns, p.specificity = q.specificity → p = q := by
  simp [isTied]

theorem isContested_eq_false_iff (hp : g.find w = some p) :
    g.isContested w = false ↔
      ∀ q ∈ g.patterns, q.accepts w = true → q.specificity = p.specificity → q = p := by
  simp [isContested, hp]

/-! ## Whole groups -/

theorem eq_of_patterns_eq (hp : g.patterns = h.patterns) : g = h := by
  cases g
  cases h
  cases hp
  rfl

/-- Falling specificity leaves patterns without ties one order. -/
theorem eq_of_perm_of_untied (htied : g.isTied = false) (hperm : g.patterns.Perm h.patterns) :
    g = h := by
  rw [isTied_eq_false_iff] at htied
  apply eq_of_patterns_eq
  refine List.Perm.eq_of_pairwise (fun p q hp hq hpq hqp => ?_) g.ordered h.ordered hperm
  exact htied p hp q (hperm.mem_iff.mpr hq) (Nat.le_antisymm hqp hpq)

/-! ## Single words -/

theorem MostSpecific.specificity_eq (hp : MostSpecific ps w p) (hq : MostSpecific ps w q) :
    p.specificity = q.specificity :=
  Nat.le_antisymm (hq.top p hp.mem hp.accepts) (hp.top q hq.mem hq.accepts)

theorem find_eq_none_of_perm (hperm : g.patterns.Perm h.patterns) (hg : g.find w = none) :
    h.find w = none := by
  rw [find_eq_none_iff] at hg ⊢
  intro p hp
  exact hg p (hperm.mem_iff.mpr hp)

/-- A word that finds a pattern finds one in any other order as well, and it
is as specific. -/
theorem exists_find_of_perm (hperm : g.patterns.Perm h.patterns) (hp : g.find w = some p) :
    ∃ q, h.find w = some q ∧ MostSpecific g.patterns w q ∧ q.specificity = p.specificity := by
  have hbest := find_mostSpecific hp
  obtain ⟨q, hq⟩ := exists_find_of_accepts (hperm.mem_iff.mp hbest.mem) hbest.accepts
  have hbest' := (find_mostSpecific hq).of_perm hperm.symm
  exact ⟨q, hq, hbest', hbest'.specificity_eq hbest⟩

theorem find_specificity_eq_of_perm (hperm : g.patterns.Perm h.patterns) (w : Word) :
    (g.find w).map Pattern.specificity = (h.find w).map Pattern.specificity := by
  cases hg : g.find w with
  | none => rw [find_eq_none_of_perm hperm hg]
  | some p =>
    obtain ⟨q, hq, -, hspec⟩ := exists_find_of_perm hperm hg
    rw [hq, Option.map_some, Option.map_some, hspec]

/-- A winner that is not contested wins in every order. -/
theorem decode_eq_of_perm (hperm : g.patterns.Perm h.patterns) (hw : g.isContested w = false) :
    g.decode w = h.decode w := by
  have hfind : g.find w = h.find w := by
    cases hg : g.find w with
    | none => rw [find_eq_none_of_perm hperm hg]
    | some p =>
      obtain ⟨q, hq, hbest, hspec⟩ := exists_find_of_perm hperm hg
      rw [hq, (isContested_eq_false_iff hg).mp hw q hbest.mem hbest.accepts hspec]
  rw [decode, decode, hfind]

/-! ## Groups built from lists -/

/-- **The order of the patterns shows only in ties.** Without a tie between
unequal patterns just the permutations of a list give its group, however it is
sorted. With ties a word still finds equally specific patterns or none, and is
decoded alike unless it is contested. -/
theorem order_shows_only_in_ties :
    (∀ (σ τ : Arrangement) (ps qs : List Pattern), ps ≠ [] → qs ≠ [] →
      (∀ p ∈ ps, ∀ q ∈ ps, p.specificity = q.specificity → p = q) →
      (ofListBy σ ps = ofListBy τ qs ↔ qs.Perm ps) ∧
      ∃ g, ofListBy σ ps = .ok g ∧ ofListBy τ g.patterns = .ok g) ∧
    ∀ (σ τ : Arrangement) (ps qs : List Pattern), ps ≠ [] → qs.Perm ps →
      ∃ g h, ofListBy σ ps = .ok g ∧ ofListBy τ qs = .ok h ∧ ∀ w,
        (g.find w).map Pattern.specificity = (h.find w).map Pattern.specificity ∧
        ∀ p, g.find w = some p →
          (∀ a ∈ ps, ∀ b ∈ ps, a.specificity = p.specificity → b.specificity = p.specificity →
            a.accepts w = true → b.accepts w = true → a = b) →
          g.decode w = h.decode w := by
  constructor
  · intro σ τ ps qs hps hqs hties
    obtain ⟨g, hg, -⟩ := exists_ofListBy σ hps
    obtain ⟨h, hh, -⟩ := exists_ofListBy τ hqs
    have hgperm := perm_of_ofListBy hg
    have hhperm := perm_of_ofListBy hh
    have hg_untied : g.isTied = false := by
      rw [isTied_eq_false_iff]
      intro p hp q hq
      exact hties p (hgperm.mem_iff.mp hp) q (hgperm.mem_iff.mp hq)
    refine ⟨⟨fun heq => ?_, fun hperm => ?_⟩, g, hg, ?_⟩
    · rw [hg, hh, Except.ok.injEq] at heq
      rw [← heq] at hhperm
      exact hhperm.symm.trans hgperm
    · rw [hg, hh, eq_of_perm_of_untied hg_untied (hgperm.trans (hperm.symm.trans hhperm.symm))]
    · obtain ⟨g', hg', -⟩ := exists_ofListBy τ g.nonempty
      rw [hg', eq_of_perm_of_untied hg_untied (perm_of_ofListBy hg').symm]
  · intro σ τ ps qs hps hperm
    have hqs : qs ≠ [] := fun hnil => hps (List.nil_perm.mp (hnil ▸ hperm))
    obtain ⟨g, hg, -⟩ := exists_ofListBy σ hps
    obtain ⟨h, hh, -⟩ := exists_ofListBy τ hqs
    have hgperm := perm_of_ofListBy hg
    have hgroups : g.patterns.Perm h.patterns :=
      hgperm.trans (hperm.symm.trans (perm_of_ofListBy hh).symm)
    refine ⟨g, h, hg, hh, fun w => ⟨find_specificity_eq_of_perm hgroups w, fun p hp hone => ?_⟩⟩
    refine decode_eq_of_perm hgroups ((isContested_eq_false_iff hp).mpr fun q hq hw hspec => ?_)
    obtain ⟨hmem, haccepts⟩ := find_mem hp
    exact hone q (hgperm.mem_iff.mp hq) p (hgperm.mem_iff.mp hmem) hspec rfl hw haccepts

/-- A pattern that comes twice ties only with itself. Two unequal patterns of
one specificity share the word 3, but not the word 2. -/
theorem order_of_repeated_and_tied :
    let exact := Spec.layOut (some "exact") ⟨[.literal 1, .literal 0]⟩
    let high := Spec.layOut (some "high") ⟨[.literal 1, .field 1 none]⟩
    let low := Spec.layOut (some "low") ⟨[.field 1 none, .literal 1]⟩
    ((∀ p ∈ [high, exact, high], ∀ q ∈ [high, exact, high], p.specificity = q.specificity → p = q) ∧
      ofListBy .stable [high, exact, high] = ofListBy (.favouring exact) [high, high, exact] ∧
      ∃ g, ofListBy .stable [high, exact, high] = .ok g ∧
        ofListBy (.favouring high) g.patterns = .ok g) ∧
    ∃ g h, ofListBy .stable [high, low] = .ok g ∧ ofListBy .stable [low, high] = .ok h ∧
      (g.find 3).map Pattern.specificity = (h.find 3).map Pattern.specificity ∧
      g.decode 2 = h.decode 2 := by
  intro exact high low
  have huntied : ∀ p ∈ [high, exact, high], ∀ q ∈ [high, exact, high],
      p.specificity = q.specificity → p = q := by decide
  obtain ⟨huntied_groups, htied_groups⟩ := order_shows_only_in_ties
  obtain ⟨hsame, -⟩ := huntied_groups .stable (.favouring exact) [high, exact, high]
    [high, high, exact] (by simp) (by simp) huntied
  obtain ⟨-, hrebuilt⟩ := huntied_groups .stable (.favouring high) [high, exact, high]
    [high, exact, high] (by simp) (by simp) huntied
  obtain ⟨g, h, hg, hh, hfind⟩ := htied_groups .stable .stable [high, low] [low, high] (by simp)
    (.swap high low [])
  have hmem : high ∈ g.patterns := (perm_of_ofListBy hg).mem_iff.mpr (by simp)
  obtain ⟨p, hp⟩ := exists_find_of_accepts (w := 2) hmem (by decide)
  -- Of the two, only `high` matches 2.
  have hone : ∀ a ∈ [high, low], ∀ b ∈ [high, low], a.accepts 2 = true → b.accepts 2 = true → a = b := by
    decide
  refine ⟨⟨huntied, hsame.mpr (by decide), hrebuilt⟩, g, h, hg, hh, (hfind 3).1, ?_⟩
  exact (hfind 2).2 p hp fun a ha b hb _ _ => hone a ha b hb

end Group
end WordPattern
