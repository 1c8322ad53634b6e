/-
Which pattern a word is dispatched to: a group takes the first match by falling
specificity, so the winner is a most specific match, `dispatch_most_specific`,
and never one that a match properly refines, `refinement_not_shadowed`.
-/
import WordPattern.Group
import WordPattern.Proofs.Masks

namespace WordPattern

/-- The first hit of a list comes before every other hit, in an order that
the list follows. -/
theorem eq_or_rel_of_find?_eq_some {α : Type} {r : α → α → Prop} {hit : α → Bool} {l : List α} {a : α}
    (hl : l.Pairwise r) (ha : l.find? hit = some a) : ∀ x ∈ l, hit x = true → x = a ∨ r a x := by
  obtain ⟨-, before, after, rfl, hbefore⟩ := List.find?_eq_some_iff_append.mp ha
  intro x hx hhit
  rcases List.mem_append.mp hx with hx | hx
  · have hmiss := hbefore x hx
    simp [hhit] at hmiss
  · rcases List.mem_cons.mp hx with rfl | hx
    · exact .inl rfl
    · exact .inr (List.rel_of_pairwise_cons (List.pairwise_append.mp hl).2.1 hx)

/-! ## Arrangements -/

namespace Arrangement

/-- Whether `a` may stand before `b` when `p` goes before all patterns of its
specificity. -/
def mayPrecedeFor (p a b : Pattern) : Bool :=
  decide (b.specificity < a.specificity ∨ b.specificity = a.specificity ∧ (a = p ∨ b ≠ p))

theorem mayPrecedeFor_trans (p a b c : Pattern) (hab : mayPrecedeFor p a b = true)
    (hbc : mayPrecedeFor p b c = true) : mayPrecedeFor p a c = true := by
  simp only [mayPrecedeFor, decide_eq_true_eq] at *
  rcases hab with hab | ⟨hab, ha⟩
  · exact .inl (by rcases hbc with hbc | ⟨hbc, -⟩ <;> omega)
  · rcases hbc with hbc | ⟨hbc, hb⟩
    · exact .inl (by omega)
    · refine .inr ⟨hbc.trans hab, ?_⟩
      rcases ha with ha | ha
      · exact .inl ha
      · exact .inr (hb.resolve_left ha)

theorem mayPrecedeFor_total (p a b : Pattern) : (mayPrecedeFor p a b || mayPrecedeFor p b a) = true := by
  simp only [mayPrecedeFor, Bool.or_eq_true, decide_eq_true_eq]
  rcases Nat.lt_trichotomy a.specificity b.specificity with h | h | h
  · exact .inr (.inl h)
  · by_cases ha : a = p
    · exact .inl (.inr ⟨h.symm, .inl ha⟩)
    · exact .inr (.inr ⟨h, .inr ha⟩)
  · exact .inl (.inl h)

theorem pairwise_mayPrecedeFor (p : Pattern) (ps : List Pattern) :
    (ps.mergeSort (mayPrecedeFor p)).Pairwise (fun a b => mayPrecedeFor p a b = true) :=
  List.pairwise_mergeSort (mayPrecedeFor_trans p) (mayPrecedeFor_total p) ps

/-- `p` goes before all other patterns of its specificity. -/
def favouring (p : Pattern) : Arrangement where
  order ps := ps.mergeSort (mayPrecedeFor p)
  perm ps := List.mergeSort_perm ps _
  ordered ps := (pairwise_mayPrecedeFor p ps).imp fun h => by
    simp only [mayPrecedeFor, decide_eq_true_eq] at h
    omega

end Arrangement

namespace Group

variable {σ : Arrangement} {ps : List Pattern} {g : Group} {w : Word} {p : Pattern}

theorem ofListBy_eq_ok_iff : ofListBy σ ps = .ok g ↔ ps ≠ [] ∧ g.patterns = σ.order ps := by
  rw [ofListBy]
  split
  · next h => exact iff_of_false (by simp) fun h' => h'.1 h
  · next h =>
    rw [Except.ok.injEq]
    refine ⟨fun hg => ⟨h, congrArg patterns hg.symm⟩, fun ⟨_, hg⟩ => ?_⟩
    cases g
    simp_all

theorem exists_ofListBy (σ : Arrangement) (h : ps ≠ []) :
    ∃ g, ofListBy σ ps = .ok g ∧ g.patterns = σ.order ps := by
  rw [ofListBy, dif_neg h]
  exact ⟨_, rfl, rfl⟩

theorem perm_of_ofListBy (h : ofListBy σ ps = .ok g) : g.patterns.Perm ps := by
  rw [(ofListBy_eq_ok_iff.mp h).2]
  exact σ.perm ps

theorem exists_find_of_accepts (hp : p ∈ g.patterns) (hw : p.accepts w = true) :
    ∃ q, g.find w = some q := by
  cases hf : g.find w with
  | some q => exact ⟨q, rfl⟩
  | none =>
    rw [find_eq_none_iff.mp hf p hp] at hw
    cases hw

/-! ## The winner -/

/-- A pattern of a list that `w` matches, and as specific as any such. -/
structure MostSpecific (ps : List Pattern) (w : Word) (p : Pattern) : Prop where
  mem : p ∈ ps
  accepts : p.accepts w = true
  top : ∀ q ∈ ps, q.accepts w = true → q.specificity ≤ p.specificity

theorem find_mostSpecific (h : g.find w = some p) : MostSpecific g.patterns w p := by
  refine ⟨(find_mem h).1, (find_mem h).2, fun q hq hw => ?_⟩
  rcases eq_or_rel_of_find?_eq_some g.ordered h q hq hw with rfl | hle
  · exact Nat.le_refl _
  · exact hle

theorem MostSpecific.of_perm {qs : List Pattern} (h : MostSpecific qs w p) (hperm : qs.Perm ps) :
    MostSpecific ps w p :=
  ⟨hperm.mem_iff.mp h.mem, h.accepts, fun q hq => h.top q (hperm.mem_iff.mpr hq)⟩

/-- Favoured among its equals, a most specific match wins. -/
theorem find_favouring (hp : MostSpecific ps w p) (hg : ofListBy (.favouring p) ps = .ok g) :
    g.find w = some p := by
  have hp' := hp.of_perm (perm_of_ofListBy hg).symm
  obtain ⟨q, hq⟩ := exists_find_of_accepts hp'.mem hp'.accepts
  have hsorted : g.patterns.Pairwise (fun a b => Arrangement.mayPrecedeFor p a b = true) := by
    rw [(ofListBy_eq_ok_iff.mp hg).2]
    exact Arrangement.pairwise_mayPrecedeFor p ps
  have hle := hp'.top q (find_mem hq).1 (find_mem hq).2
  rcases eq_or_rel_of_find?_eq_some hsorted hq p hp'.mem hp'.accepts with rfl | hbefore
  · exact hq
  · simp only [Arrangement.mayPrecedeFor, decide_eq_true_eq, ne_eq, not_true_eq_false, or_false] at hbefore
    rcases hbefore with hlt | ⟨-, rfl⟩
    · omega
    · exact hq

/-- **Dispatch takes a most specific match, and nothing more is promised.**
However a group is arranged, a word without a match finds nothing, and any other
word a most specific match; each of these is found under some arrangement. -/
theorem dispatch_most_specific (h : ps ≠ []) (w : Word) :
    (∀ σ : Arrangement, ∃ g, ofListBy σ ps = .ok g ∧ g.patterns.Perm ps ∧
      (g.find w = none ↔ ∀ p ∈ ps, p.accepts w = false) ∧
      ∀ p, g.find w = some p → MostSpecific ps w p) ∧
    ∀ p, MostSpecific ps w p → ∃ σ g, ofListBy σ ps = .ok g ∧ g.find w = some p := by
  constructor
  · intro σ
    obtain ⟨g, hg, -⟩ := exists_ofListBy σ h
    have hperm := perm_of_ofListBy hg
    refine ⟨g, hg, hperm, ?_, fun p hp => (find_mostSpecific hp).of_perm hperm⟩
    rw [find_eq_none_iff]
    exact ⟨fun hn p hp => hn p (hperm.mem_iff.mpr hp), fun hn p hp => hn p (hperm.mem_iff.mp hp)⟩
  · intro p hp
    obtain ⟨g, hg, -⟩ := exists_ofListBy (.favouring p) h
    exact ⟨.favouring p, g, hg, find_favouring hp hg⟩

/-- Two patterns of one specificity match the word 2, and each of them may
win it. -/
theorem either_of_two_wins :
    let high := Spec.layOut (some "high") ⟨[.literal 1, .field 1 none]⟩
    let low := Spec.layOut (some "low") ⟨[.field 1 none, .literal 0]⟩
    [high, low] ≠ [] ∧
    (∃ σ g, ofListBy σ [high, low] = .ok g ∧ g.find 2 = some high) ∧
    ∃ σ g, ofListBy σ [high, low] = .ok g ∧ g.find 2 = some low :=
  ⟨by simp,
    (dispatch_most_specific (by simp) 2).2 _ ⟨by decide, by decide, by decide⟩,
    (dispatch_most_specific (by simp) 2).2 _ ⟨by decide, by decide, by decide⟩⟩

/-! ## Refinements -/

/-- **A refinement is never shadowed.** When a pattern matches strictly fewer
words than another of its group, it is more specific, all its copies stand
before all of the other's, and no word that it matches goes to the other. -/
theorem refinement_not_shadowed {a b : Pattern} (hps : ∀ p ∈ ps, p.Compiled)
    (hg : ofListBy σ ps = .ok g) (ha : a ∈ g.patterns) (hb : b ∈ g.patterns)
    (hab : ∀ w, a.accepts w = true → b.accepts w = true)
    (hne : ∃ w, b.accepts w = true ∧ a.accepts w = false) :
    b.specificity < a.specificity ∧
    (∀ i j : Nat, g.patterns[i]? = some a → g.patterns[j]? = some b → i < j) ∧
    ∀ w, a.accepts w = true →
      ∃ p, g.find w = some p ∧ a.specificity ≤ p.specificity ∧ p ≠ b := by
  have hperm := perm_of_ofListBy hg
  have hlt := Pattern.specificity_lt_of_refines (hps a (hperm.mem_iff.mp ha))
    (hps b (hperm.mem_iff.mp hb)) hab hne
  refine ⟨hlt, fun i j hi hj => ?_, fun w hw => ?_⟩
  · obtain ⟨hil, rfl⟩ := List.getElem?_eq_some_iff.mp hi
    obtain ⟨hjl, rfl⟩ := List.getElem?_eq_some_iff.mp hj
    rcases Nat.lt_trichotomy i j with h | rfl | h
    · exact h
    · exact absurd hlt (Nat.lt_irrefl _)
    · have := List.pairwise_iff_getElem.mp g.ordered j i hjl hil h
      omega
  · obtain ⟨p, hp⟩ := exists_find_of_accepts ha hw
    have htop := (find_mostSpecific hp).top a ha hw
    refine ⟨p, hp, htop, fun hpb => ?_⟩
    rw [hpb] at htop
    omega

/-- A refinement of another length. -/
theorem longer_not_shadowed :
    let exact := Spec.layOut (some "exact") ⟨[.literal 1, .literal 1, .literal 0]⟩
    let loose := Spec.layOut (some "loose") ⟨[.literal 1, .field 1 none]⟩
    (∀ p ∈ [loose, exact], p.Compiled) ∧ (∀ w, exact.accepts w = true → loose.accepts w = true) ∧
    (loose.accepts 2 = true ∧ exact.accepts 2 = false) ∧
    ∃ g, ofListBy .stable [loose, exact] = .ok g ∧ loose.specificity < exact.specificity ∧
      ∃ p, g.find 6 = some p ∧ exact.specificity ≤ p.specificity ∧ p ≠ loose := by
  intro exact loose
  have hps : ∀ p ∈ [loose, exact], p.Compiled := by
    intro p hp
    simp only [List.mem_cons, List.not_mem_nil, or_false] at hp
    rcases hp with rfl | rfl
    · exact ⟨some "loose", ⟨[.literal 1, .field 1 none]⟩, by decide⟩
    · exact ⟨some "exact", ⟨[.literal 1, .literal 1, .literal 0]⟩, by decide⟩
  have hab : ∀ w, exact.accepts w = true → loose.accepts w = true :=
    Pattern.forall_accepts_imp_iff.mpr (by decide)
  have hne : loose.accepts 2 = true ∧ exact.accepts 2 = false := by decide
  obtain ⟨g, hg, -⟩ := exists_ofListBy .stable (List.cons_ne_nil loose [exact])
  have hperm := perm_of_ofListBy hg
  obtain ⟨hlt, -, hfind⟩ := refinement_not_shadowed hps hg (hperm.mem_iff.mpr (by simp))
    (hperm.mem_iff.mpr (by simp)) hab ⟨2, hne⟩
  exact ⟨hps, hab, hne, g, hg, hlt, hfind 6 (by decide)⟩

end Group
end WordPattern
